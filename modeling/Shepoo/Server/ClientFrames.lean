import Shepoo.Server.FrameRoundTrip

/-! Frames as a client that follows the standard sends them: masked, with the extended
length in network byte order. The server takes that length in host order. -/
namespace Shepoo.Server.ClientFrames
open Foundation ByteCodec ByteSource MaskedFrame

def clientFrame (message : Message) (key : MaskingKey) : Frame :=
  ⟨true,0,2,some key,message.bytes⟩

/-- The two low bytes of a length, exchanged. -/
def swapped (n : Nat) : Nat := n%256*256 + n/256

private theorem announced_medium {n : Nat} (h : n < 2^16) :
    announced be .medium n = swapped n := by
  have h1 : (UInt8.ofNat n).toNat = n%256 := UInt8.toNat_ofNat'
  have h2 : (UInt8.ofNat (n/256)).toNat = n/256%256 := UInt8.toNat_ofNat'
  simp only [announced,be,le,List.reverse_cons,List.reverse_nil,List.nil_append,
    List.cons_append,leValue_cons,leValue_nil,h1,h2,swapped]
  omega

/-- Read in host order, a length below 2^32 in network order lands in the upper half. -/
private theorem announced_long {n : Nat} (h : n < 2^32) :
    ∃ k < 2^32, announced be .long n = 2^32*k := by
  have hz : n/256/256/256/256 = 0 := by
    simp only [Nat.div_div_eq_div_mul]
    omega
  refine ⟨leValue (be 4 n),?_,?_⟩
  · have := leValue_lt (be 4 n)
    rw [length_be] at this
    exact this.trans_eq (by norm_num)
  · simp only [announced,be,le,List.reverse_cons,List.reverse_nil,List.nil_append,
      List.cons_append,leValue_cons,leValue_nil,hz,Nat.zero_div]
    have h0 : (UInt8.ofNat 0).toNat = 0 := rfl
    rw [h0]
    ring

/-- The loop run past the data still unmasks the data. -/
private theorem unmask_longer (key data tail : List UInt8) {n : Nat} (h : data.length ≤ n) :
    ∃ tail', unmask key n (mask key data ++ tail) = data ++ tail' := by
  refine ⟨(unmask key n (mask key data ++ tail)).drop data.length,?_⟩
  conv_lhs => rw [← List.take_append_drop data.length (unmask key n (mask key data ++ tail))]
  congr 1
  apply List.ext_getElem?
  intro i
  rw [List.getElem?_take,getElem?_unmask]
  by_cases hi : i < data.length
  · have hm := congrArg (·[i]?) (mask_mask key data)
    simp only [getElem?_mask] at hm
    rw [if_pos hi,List.getElem?_append_left (by simpa using hi),getElem?_mask]
    conv_rhs => rw [← hm]
    simp only [show i < n by omega,if_true]
  · rw [if_neg hi,List.getElem?_eq_none (by omega)]

/-- A read of at least the masked data leaves it at the front of the buffer. -/
private theorem sslRead_front {n : Nat} {data : List UInt8} (h : data.length ≤ n) (hpos : 0 < n)
    (buffer rest : List UInt8) :
    ∃ tail ssl, sslRead n buffer (⟨data ++ rest⟩ : Wire) = (data ++ tail,ssl) := by
  refine ⟨rest.take (n-data.length) ++
    buffer.drop ((data ++ rest).take n).length,⟨(data ++ rest).drop n⟩,?_⟩
  rw [sslRead_pos hpos,wire_read]
  simp only [fill]
  rw [List.take_append,List.take_of_length_le h,List.append_assoc]

section Cases
variable (message : Message) (key : MaskingKey) (rest : List UInt8)

/-- The process emits the message, however its uninitialised storage looks. -/
def Understood : Prop :=
  ∀ memory, ∃ payload ssl,
    handleWebSocketFrame memory (⟨(clientFrame message key).standard ++ rest⟩ : Wire) =
      (.emit message.packet payload,ssl) ∧
    payload.take message.packet.payloadLength.toNat = message.payload

variable {message key rest}

private theorem understood_short (h : message.bytes.length < 126) :
    Understood message key rest := by
  intro memory
  have he : (clientFrame message key).standard =
      (clientFrame message key).encode le .short := by
    have hm : LengthForm.minimal message.bytes.length = .short := if_pos h
    change (clientFrame message key).encode be (LengthForm.minimal message.bytes.length) = _
    rw [hm]
    rfl
  refine ⟨message.payload ++ [0],⟨rest⟩,?_,List.take_left' message.exact⟩
  rw [he]
  have hf : LengthForm.short.Admits message.bytes.length := h
  exact FrameRoundTrip.message_frame_emitted memory message rfl rfl hf (by omega) rest

private theorem standard_wire (memory : Memory) {form : LengthForm}
    (hm : LengthForm.minimal message.bytes.length = form) (hl : message.bytes.length < 2^32)
    {n : Nat} (hn : announced be form message.bytes.length = n) (hsmall : n+1 < 2^64)
    {payload : List UInt8} {ssl : Wire}
    (hr : sslRead (intCount (UInt64.ofNat n)) (fresh memory.payload n ++ [0])
      (⟨mask key.val message.bytes ++ rest⟩ : Wire) = (payload,ssl)) :
    handleWebSocketFrame memory (⟨(clientFrame message key).standard ++ rest⟩ : Wire) =
      (judgeFrame (frameHeader (clientFrame message key) (form.code message.bytes.length))
        (UInt64.ofNat n) (unmask key.val n payload),ssl) := by
  have ha : form.Admits message.bytes.length := by
    rw [← hm]
    exact LengthForm.minimal_admits (by omega)
  have he : (clientFrame message key).standard = (clientFrame message key).encode be form := by
    rw [← hm]
    rfl
  rw [he]
  exact handleWebSocketFrame_wire length_be memory (clientFrame message key) ha rest hn hsmall hr

/-- The emission names the message's packet, so the announced length covers it. -/
private theorem emitted_covers {header : WebSocketFrameHeader} {n : Nat}
    {buffer payload : List UInt8} (hn : n < 2^64)
    (hp : message.packet.payloadLength.toNat < 2^32)
    (h : judgeFrame header (UInt64.ofNat n) buffer = .emit message.packet payload) :
    message.bytes.length ≤ n := by
  obtain ⟨_,_,hle,_⟩ := judgeFrame_eq_emit.mp h
  rw [UInt64.le_iff_toNat_le,UInt64.toNat_add,UInt64.toNat_ofNat',Nat.mod_eq_of_lt hn] at hle
  change (10 + _) % 2^64 ≤ n at hle
  rw [Message.length_bytes]
  omega

private theorem understood_medium (hs : ¬ message.bytes.length < 126)
    (h : message.bytes.length < 2^16) :
    Understood message key rest ↔ message.bytes.length ≤ swapped message.bytes.length := by
  have hm : LengthForm.minimal message.bytes.length = .medium := (if_neg hs).trans (if_pos h)
  have hsw : swapped message.bytes.length < 2^16 := by
    unfold swapped
    omega
  have hv : (UInt64.ofNat (swapped message.bytes.length)).toNat = swapped message.bytes.length :=
    UInt64.toNat_ofNat_of_lt' (show _ < 2^64 by omega)
  have hlen := message.length_bytes
  constructor
  · intro hu
    obtain ⟨payload,ssl,he,_⟩ := hu FrameRoundTrip.someMemory
    rw [standard_wire _ hm (by omega) (announced_medium h) (by omega) rfl] at he
    exact emitted_covers (by omega) (by omega) (Prod.mk.inj he).1
  · intro hle memory
    have hmask : (mask key.val message.bytes).length ≤ swapped message.bytes.length := by
      rw [length_mask]
      exact hle
    obtain ⟨tail,ssl,hr⟩ := sslRead_front hmask (by omega)
      (fresh memory.payload (swapped message.bytes.length) ++ [0]) rest
    obtain ⟨tail',ht⟩ := unmask_longer key.val message.bytes tail hle
    rw [← intCount_ofNat (by omega)] at hr
    refine ⟨message.payload ++ tail',ssl,?_,List.take_left' message.exact⟩
    rw [standard_wire memory hm (by omega) (announced_medium h) (by omega) hr,ht]
    have hb : message.bytes ++ tail' = message.packet.bytes ++ (message.payload ++ tail') := by
      rw [Message.bytes,List.append_assoc]
    rw [hb,judgeFrame_emit rfl (by rw [hv]; omega)]

/-- Unmasking old heap contents that are constant changes the first of them by the first
key byte. -/
private theorem unmask_fresh_first (key : List UInt8) {n : Nat} (hn : 0 < n) (b : UInt8) :
    (unmask key n (fresh (fun _ => b) n ++ [0]))[0]? = some (b ^^^ key.getD 0 0) := by
  have hg : (fresh (fun _ => b) n ++ [0])[0]? = some b := by
    rw [List.getElem?_append_left (by rw [length_fresh]; exact hn),fresh,List.getElem?_map,
      List.getElem?_range hn]
    rfl
  rw [getElem?_unmask,hg,Option.map_some,if_pos hn,Nat.zero_mod]

/-- The 64-bit form announces a multiple of 2^32: as an `int` count it is zero, nothing
is read, and the packet comes out of old heap contents. -/
private theorem not_understood_long (hs : ¬ message.bytes.length < 2^16)
    (h : message.bytes.length < 2^32) : ¬ Understood message key rest := by
  have hm : LengthForm.minimal message.bytes.length = .long :=
    (if_neg (by omega)).trans (if_neg hs)
  obtain ⟨k,hk,hn⟩ := announced_long h
  have hi : intCount (UInt64.ofNat (2^32*k)) = 0 := by
    rw [intCount_eq,UInt64.toNat_ofNat']
    split <;> omega
  have hlen := message.length_bytes
  intro hu
  let memory : Memory := { FrameRoundTrip.someMemory with
    payload := fun _ => message.packet.version ^^^ 1 ^^^ key.val.getD 0 0 }
  obtain ⟨payload,ssl,he,_⟩ := hu memory
  have hr : sslRead (intCount (UInt64.ofNat (2^32*k))) (fresh memory.payload (2^32*k) ++ [0])
      (⟨mask key.val message.bytes ++ rest⟩ : Wire) =
        (fresh memory.payload (2^32*k) ++ [0],⟨mask key.val message.bytes ++ rest⟩) := by
    rw [hi]
    rfl
  rw [standard_wire memory hm h hn (by omega) hr] at he
  have hj := (Prod.mk.inj he).1
  have hcover := emitted_covers (by omega) (by omega) hj
  obtain ⟨_,_,_,hp,_⟩ := judgeFrame_eq_emit.mp hj
  have hversion := congrArg Packet.version hp
  have hfirst : (unmask key.val (2^32*k) (fresh memory.payload (2^32*k) ++ [0]))[0]? =
      some (message.packet.version ^^^ 1) := by
    rw [unmask_fresh_first key.val (by omega),UInt8.xor_assoc,UInt8.xor_self,UInt8.xor_zero]
  simp only [Packet.ofBytes,List.getD_eq_getElem?_getD,hfirst,Option.getD_some] at hversion
  have hone : message.packet.version ^^^ 0 = message.packet.version ^^^ 1 :=
    UInt8.xor_zero.trans hversion
  exact absurd ((UInt8.xor_right_inj _).mp hone) (by decide)

end Cases

/-- A standard client frame is understood exactly when its length fits the seven bits,
or is two bytes that do not become smaller by exchanging them: the read then asks for too
much, and the packet and its payload still lie at the front of the buffer. -/
theorem client_frame_understood_iff (message : Message)
    (h : message.packet.payloadLength ≤ maxPacketPayloadSize) (key : MaskingKey)
    (rest : List UInt8) :
    Understood message key rest ↔
      message.packet.payloadLength.toNat + 10 ≤ 125 ∨
      (message.packet.payloadLength.toNat + 10 < 65536 ∧
        message.packet.payloadLength.toNat + 10 ≤
          swapped (message.packet.payloadLength.toNat + 10)) := by
  have hmax := max_small h
  have hlen := message.length_bytes
  rw [Nat.add_comm] at hlen
  rw [← hlen]
  by_cases hs : message.bytes.length < 126
  · exact iff_of_true (understood_short hs) (.inl (by omega))
  · by_cases hm : message.bytes.length < 65536
    · rw [understood_medium hs hm]
      constructor
      · intro hle
        exact .inr ⟨hm,hle⟩
      · rintro (hn | hn)
        · omega
        · exact hn.2
    · exact iff_of_false (not_understood_long hm (by omega)) (by omega)

def paddedMessage : Message where
  packet := ⟨1,6,246⟩
  payload := List.replicate 246 0
  exact := List.length_replicate

def someKey : MaskingKey := ⟨[1,2,3,4],rfl⟩

theorem padded_understood_iff :
    Understood paddedMessage someKey [] ↔
      (246 : UInt64).toNat + 10 ≤ 125 ∨
      ((246 : UInt64).toNat + 10 < 65536 ∧
        (246 : UInt64).toNat + 10 ≤ swapped ((246 : UInt64).toNat + 10)) :=
  client_frame_understood_iff paddedMessage (by decide) someKey []

/-- The length bytes 01 00 are read as 1, less than a packet header. -/
theorem padded_frame_refused : ¬ Understood paddedMessage someKey [] := by
  have hlen : paddedMessage.bytes.length = 256 := paddedMessage.length_bytes
  rw [understood_medium (by omega) (by omega),hlen]
  decide

end Shepoo.Server.ClientFrames
