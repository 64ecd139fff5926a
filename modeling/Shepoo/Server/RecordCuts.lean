import Shepoo.Server.SecNet
import Shepoo.Server.FrameRoundTrip

/-! Raw connections under every way of cutting the stream into records. The constructor
makes one call for the header and one for the payload, and looks at neither count. -/
namespace Shepoo.Server.RecordCuts
open Foundation ByteCodec ByteSource Records

def Delivers (digest : Digest) (memory : Memory) (fuel : Nat) (message : Message)
    (ssl : Records) : Prop :=
  (SecNet.construct digest memory fuel ssl).outcome = .emit message.packet message.payload

def Refuses (digest : Digest) (memory : Memory) (fuel : Nat) (ssl : Records) : Prop :=
  ∃ reason, (SecNet.construct digest memory fuel ssl).outcome = .exit reason

/-- Both runs deliver the message or both refuse, whatever lies in their heaps. -/
def SameOutcome (digest : Digest) (fuel : Nat) (message : Message) (ssl₁ ssl₂ : Records) :
    Prop :=
  ∀ memory₁ memory₂,
    (Delivers digest memory₁ fuel message ssl₁ ∧ Delivers digest memory₂ fuel message ssl₂) ∨
    (Refuses digest memory₁ fuel ssl₁ ∧ Refuses digest memory₂ fuel ssl₂)

/-- The first call leaves out none but zero bytes of the header; the next N bytes of the
stream are the payload, and the second call brings all of them. -/
def Whole (message : Message) (ssl : Records) : Prop :=
  (∀ b ∈ message.packet.bytes.drop (ssl.delivered 10), b = 0) ∧
  ((stream ssl.cut).drop (ssl.delivered 10)).take message.packet.payloadLength.toNat =
    message.payload ∧
  (Source.read 10 ssl).2.delivered message.packet.payloadLength.toNat =
    message.packet.payloadLength.toNat

/-- A call for n bytes puts the front of the stream over the front of its buffer. -/
theorem sslRead_records (n : Nat) (buffer : List UInt8) (ssl : Records) :
    (sslRead n buffer ssl).1 =
      (stream ssl.cut).take (ssl.delivered n) ++ buffer.drop (ssl.delivered n) := by
  have hbytes := read_eq_take n ssl
  rw [length_read,pending_eq] at hbytes
  rw [sslRead_eq_fill,fill,length_read,← hbytes]

def headerRead (message : Message) (ssl : Records) : List UInt8 :=
  message.packet.bytes.take (ssl.delivered 10) ++ List.replicate (10-ssl.delivered 10) 0

section Connection
variable {message : Message} {rest : List UInt8} {ssl : Records}

private theorem length_headerRead (message : Message) (ssl : Records) :
    (headerRead message ssl).length = 10 := by
  have := delivered_le 10 ssl
  simp only [headerRead,List.length_append,List.length_take,List.length_replicate,
    Packet.length_bytes]
  omega

private theorem sslRead_header (hs : stream ssl.cut = message.bytes ++ rest) :
    sslRead 10 (List.replicate 10 0) ssl = (headerRead message ssl,(Source.read 10 ssl).2) := by
  have hd := delivered_le 10 ssl
  have hlen := Packet.length_bytes message.packet
  have h := sslRead_records 10 (List.replicate 10 0) ssl
  rw [hs,Message.bytes,List.append_assoc,List.take_append_of_le_length (by omega),
    List.drop_replicate] at h
  exact Prod.ext h rfl

/-- What is missing of the header is zero, so the announced length is not larger. -/
private theorem headerRead_le (message : Message) (ssl : Records) :
    (Packet.ofBytes (headerRead message ssl)).payloadLength ≤ message.packet.payloadLength := by
  have htail : ((headerRead message ssl).drop 2).take 8 =
      (le 8 message.packet.payloadLength.toNat).take (ssl.delivered 10-2) ++
        List.replicate (8-(ssl.delivered 10-2)) 0 := by
    have hl : ((headerRead message ssl).drop 2).length = 8 := by
      rw [List.length_drop,length_headerRead]
    rw [List.take_of_length_le hl.le,headerRead,List.drop_append,List.drop_take,
      List.drop_replicate,List.length_take,Packet.length_bytes]
    have hd := delivered_le 10 ssl
    congr 2
    omega
  have hle := leValue_take_le (le 8 message.packet.payloadLength.toNat) (ssl.delivered 10-2)
    (8-(ssl.delivered 10-2))
  rw [leValue_le_of_lt (message.packet.payloadLength.toNat_lt.trans_eq (by norm_num))] at hle
  have hlt := message.packet.payloadLength.toNat_lt
  rw [UInt64.le_iff_toNat_le,Packet.ofBytes,htail,UInt64.toNat_ofNat',
    Nat.mod_eq_of_lt (by omega)]
  exact hle

private theorem headerRead_eq_fill (message : Message) (ssl : Records) :
    headerRead message ssl =
      fill (List.replicate 10 0) (message.packet.bytes.take (ssl.delivered 10)) := by
  have hd := delivered_le 10 ssl
  rw [headerRead,fill,List.drop_replicate,List.length_take,Packet.length_bytes,
    Nat.min_eq_left hd]

/-- A header that is cut short never looks like a request line. -/
private theorem headerRead_raw (hraw : message.packet.bytes.take 4 ≠ ascii "GET ") :
    isGet (headerRead message ssl) = false := by
  have hl : (message.packet.bytes.take (ssl.delivered 10)).length ≤ 10 := by
    rw [List.length_take,Packet.length_bytes]
    exact Nat.min_le_right _ _
  rw [Bool.eq_false_iff,ne_eq,headerRead_eq_fill,isGet_fill hl]
  intro hget
  exact hraw (List.prefix_iff_eq_take.mp (hget.trans (List.take_prefix _ _))).symm

def payloadRead (memory : Memory) (message : Message) (ssl : Records) : List UInt8 :=
  (sslRead (Packet.ofBytes (headerRead message ssl)).payloadLength.toNat
    (fresh memory.payload (Packet.ofBytes (headerRead message ssl)).payloadLength.toNat)
    (Source.read 10 ssl).2).1

/-- Whatever the cutting, the constructor emits what it finds in its two buffers. -/
theorem construct_emits (hs : stream ssl.cut = message.bytes ++ rest)
    (hmax : message.packet.payloadLength ≤ maxPacketPayloadSize)
    (hraw : message.packet.bytes.take 4 ≠ ascii "GET ") (digest : Digest) (memory : Memory)
    (fuel : Nat) : (SecNet.construct digest memory fuel ssl).outcome =
      .emit (Packet.ofBytes (headerRead message ssl)) (payloadRead memory message ssl) := by
  rw [SecNet.construct_raw (sslRead_header hs) (headerRead_raw hraw)
    (UInt64.le_trans (headerRead_le message ssl) hmax) rfl]
  rfl

private theorem header_eq_iff : headerRead message ssl = message.packet.bytes ↔
    ∀ b ∈ message.packet.bytes.drop (ssl.delivered 10), b = 0 := by
  have hl : (message.packet.bytes.drop (ssl.delivered 10)).length = 10-ssl.delivered 10 := by
    rw [List.length_drop,Packet.length_bytes]
  conv_lhs => rhs; rw [← List.take_append_drop (ssl.delivered 10) message.packet.bytes]
  rw [headerRead,List.append_right_inj,← hl,eq_comm,List.eq_replicate_iff]
  exact and_iff_right rfl

private theorem packet_eq_iff : Packet.ofBytes (headerRead message ssl) = message.packet ↔
    headerRead message ssl = message.packet.bytes := by
  constructor
  · intro h
    rw [← Packet.bytes_ofBytes (length_headerRead message ssl),h]
  · intro h
    rw [h,Packet.ofBytes_self]

def payloadBytes (message : Message) (ssl : Records) : List UInt8 :=
  (Source.read message.packet.payloadLength.toNat (Source.read 10 ssl).2).1

private theorem payloadRead_eq (hp : Packet.ofBytes (headerRead message ssl) = message.packet)
    (memory : Memory) : payloadRead memory message ssl =
      fill (fresh memory.payload message.packet.payloadLength.toNat)
        (payloadBytes message ssl) := by
  rw [payloadRead,hp,sslRead_eq_fill,payloadBytes]

private theorem payloadBytes_eq (message : Message) (ssl : Records) :
    payloadBytes message ssl = ((stream ssl.cut).drop (ssl.delivered 10)).take
      (payloadBytes message ssl).length := by
  have hpend := pending_read 10 ssl
  rw [length_read,pending_eq,pending_eq] at hpend
  rw [← hpend]
  exact read_eq_take _ _

/-- The process delivers the message from every heap exactly when nothing was left out. -/
theorem delivers_iff (hs : stream ssl.cut = message.bytes ++ rest)
    (hmax : message.packet.payloadLength ≤ maxPacketPayloadSize)
    (hraw : message.packet.bytes.take 4 ≠ ascii "GET ") (digest : Digest) (fuel : Nat) :
    (∀ memory, Delivers digest memory fuel message ssl) ↔ Whole message ssl := by
  have : Nonempty Memory := ⟨FrameRoundTrip.someMemory⟩
  simp only [Delivers,construct_emits hs hmax hraw,Outcome.emit.injEq,forall_and,forall_const]
  rw [packet_eq_iff,header_eq_iff,Whole]
  refine and_congr_right fun hz => ?_
  have hp := packet_eq_iff.mpr (header_eq_iff.mpr hz)
  have hfront := payloadBytes_eq message ssl
  have hlen : (payloadBytes message ssl).length =
      (Source.read 10 ssl).2.delivered message.packet.payloadLength.toNat := length_read _ _
  have hfill := fill_fresh_eq_iff (Source.read_length message.packet.payloadLength.toNat
    (Source.read 10 ssl).2) message.payload
  rw [← payloadBytes] at hfill
  simp only [payloadRead_eq hp,← hlen]
  constructor
  · intro h
    obtain ⟨hd,hn⟩ := hfill.mp fun garbage =>
      h { FrameRoundTrip.someMemory with payload := garbage }
    rw [hn,hd] at hfront
    exact ⟨hfront.symm,hn⟩
  · rintro ⟨hd,hn⟩ memory
    rw [hn,hd] at hfront
    exact hfill.mpr ⟨hfront,hn⟩ memory.payload

/-- Two cuttings have the same outcome exactly when both calls of both runs bring what
the packet consists of. -/
theorem cut_independent_iff (message : Message)
    (hmax : message.packet.payloadLength ≤ maxPacketPayloadSize)
    (hraw : message.packet.bytes.take 4 ≠ ascii "GET ") (rest : List UInt8)
    (ssl₁ ssl₂ : Records) (h₁ : stream ssl₁.cut = message.bytes ++ rest)
    (h₂ : stream ssl₂.cut = message.bytes ++ rest) (digest : Digest) (fuel : Nat) :
    SameOutcome digest fuel message ssl₁ ssl₂ ↔ Whole message ssl₁ ∧ Whole message ssl₂ := by
  rw [← delivers_iff h₁ hmax hraw digest fuel,← delivers_iff h₂ hmax hraw digest fuel]
  constructor
  · intro h
    have hboth (memory₁ memory₂ : Memory) : Delivers digest memory₁ fuel message ssl₁ ∧
        Delivers digest memory₂ fuel message ssl₂ := by
      rcases h memory₁ memory₂ with hd | ⟨⟨reason,hr⟩,_⟩
      · exact hd
      · rw [construct_emits h₁ hmax hraw] at hr
        cases hr
    exact ⟨fun memory => (hboth memory memory).1,fun memory => (hboth memory memory).2⟩
  · rintro ⟨hd₁,hd₂⟩ memory₁ memory₂
    exact .inl ⟨hd₁ memory₁,hd₂ memory₂⟩

end Connection

def blockOne : Message where
  packet := ⟨1,6,8⟩
  payload := [0,0,0,0,0,0,0,1]
  exact := rfl

/-- The header and half of the payload in one record, the other half in the next. -/
def splitPayload : Records :=
  ⟨[⟨[1,6,8,0,0,0,0,0,0,0,0,0,0,0],by decide⟩,⟨[0,0,0,1],by decide⟩],[]⟩

def oneRecord : Records :=
  ⟨[⟨[1,6,8,0,0,0,0,0,0,0,0,0,0,0,0,0,0,1],by decide⟩],[]⟩

theorem blockOne_cut_independent_iff :
    SameOutcome noDigest 0 blockOne oneRecord splitPayload ↔
      Whole blockOne oneRecord ∧ Whole blockOne splitPayload :=
  cut_independent_iff blockOne (by decide) (by decide) [] oneRecord splitPayload (by decide)
    (by decide) noDigest 0

/-- The four bytes of the second record are never asked for; old heap contents stand in
their place. -/
theorem split_payload_differs : ¬ SameOutcome noDigest 0 blockOne oneRecord splitPayload := by
  intro h
  rcases h FrameRoundTrip.someMemory FrameRoundTrip.someMemory with ⟨_,hd⟩ | ⟨⟨reason,hr⟩,_⟩
  · exact absurd hd (by unfold Delivers; decide)
  · have hs : stream oneRecord.cut = blockOne.bytes ++ [] := by decide
    rw [construct_emits hs (by decide) (by decide)] at hr
    cases hr

end Shepoo.Server.RecordCuts
