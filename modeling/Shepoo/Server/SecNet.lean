import Shepoo.Server.Handshake
import Shepoo.Server.Protocol

/-! One connection process: the constructor receives a request on either path, the
dispatcher answers it, and the answer leaves by `sendPacket`. -/
namespace Shepoo.Server
open Foundation ByteCodec ByteSource BoundedLoop PosixFile

/-- The library functions behind the accept value: the SHA-1 calls and `b64_ntop`. -/
structure Digest where
  sha1 : List UInt8 → List UInt8
  base64 : List UInt8 → List UInt8
  length_sha1 : ∀ text, (sha1 text).length = 20
  length_base64 : ∀ hash, (base64 hash).length = 4*((hash.length+2)/3)

def acceptKey (digest : Digest) (key : List UInt8) : List UInt8 :=
  digest.base64 (digest.sha1 (key ++ ascii "258EAFA5-E914-47DA-95CA-C5AB0DC85B11"))

def switchingProtocols (acceptKey : List UInt8) : List UInt8 :=
  ascii "HTTP/1.1 101 Switching Protocols\r\nUpgrade: websocket\r\n" ++
  ascii "Connection: Upgrade\r\nSec-WebSocket-Accept: " ++ acceptKey ++
  ascii "\r\nSec-WebSocket-Protocol: shepoo\r\n\r\n"

theorem length_acceptKey (digest : Digest) (key : List UInt8) :
    (acceptKey digest key).length = 28 := by
  rw [acceptKey,digest.length_base64,digest.length_sha1]

/-- Functions of the right lengths, where the accept value is not looked at. -/
def noDigest : Digest where
  sha1 _ := List.replicate 20 0
  base64 hash := List.replicate (4*((hash.length+2)/3)) 65
  length_sha1 _ := List.length_replicate
  length_base64 _ := List.length_replicate

/-- The SHA-1 value for the key "AQ==". -/
def acceptHash : List UInt8 :=
  [203,90,101,250,223,188,12,174,36,143,69,137,179,213,104,64,117,71,108,202]

/-- Right for that key; what it says for others nobody calls it for. -/
def tableDigest : Digest where
  sha1 text :=
    if text = ascii "AQ==258EAFA5-E914-47DA-95CA-C5AB0DC85B11" then acceptHash
    else List.replicate 20 0
  base64 hash :=
    if hash = acceptHash then ascii "y1pl+t+8DK4kj0WJs9VoQHVHbMo="
    else List.replicate (4*((hash.length+2)/3)) 65
  length_sha1 text := by
    split
    · rfl
    · exact List.length_replicate
  length_base64 hash := by
    split
    · next h =>
      rw [h]
      rfl
    · exact List.length_replicate

theorem acceptKey_table :
    acceptKey tableDigest (ascii "AQ==") = ascii "y1pl+t+8DK4kj0WJs9VoQHVHbMo=" := by decide

structure Received (σ : Type) where
  ssl : σ
  webSocket : Bool
  written : List UInt8
  outcome : Outcome
  deriving DecidableEq, Repr

/-- `*(int*)&packet == 0x20544547`, the text "GET " in host order -/
def isGet (packet : List UInt8) : Bool := leValue (packet.take 4) == 0x20544547

namespace SecNet
variable {σ : Type} [Source σ]

def handleWebSocket (digest : Digest) (memory : Memory) (fuel : Nat) (packet : Packet)
    (ssl : σ) : Received σ :=
  match handshake fuel packet ssl with
  | .fault => ⟨ssl,memory.webSocket,[],.fault⟩
  | .running => ⟨ssl,memory.webSocket,[],.running⟩
  | .done (.error reason,ssl) => ⟨ssl,memory.webSocket,[],.exit reason⟩
  | .done (.ok key,ssl) =>
    let answer := switchingProtocols (acceptKey digest key)
    -- what lands in `tmp` is not looked at
    let (_,ssl) := sslRead 3 (List.replicate 3 0) ssl
    let (outcome,ssl) := handleWebSocketFrame memory ssl
    ⟨ssl,true,answer,outcome⟩

/-- The constructor, once the TLS connection stands. -/
def construct (digest : Digest) (memory : Memory) (fuel : Nat) (ssl : σ) : Received σ :=
  let (raw,ssl) := sslRead 10 (List.replicate 10 0) ssl
  let packet := Packet.ofBytes raw
  if isGet raw then handleWebSocket digest memory fuel packet ssl
  else if packet.payloadLength > maxPacketPayloadSize then
    ⟨ssl,memory.webSocket,[],.exit (.payloadTooLarge packet.payloadLength)⟩
  else
    let payload := fresh memory.payload packet.payloadLength.toNat
    let (payload,ssl) := sslRead (intCount packet.payloadLength) payload ssl
    ⟨ssl,memory.webSocket,[],.emit packet payload⟩

end SecNet

structure Service where
  digest : Digest
  blockSize : UInt64
  storage : Blockstorage
  fs : FileSystem

namespace Service
variable {σ : Type} [Source σ]

/-- The calls of `sendPacket` the connected handler makes for an emission. -/
def answers (service : Service) (memory : Memory) : Outcome → List Answer
  | .emit packet payload =>
    match (Protocol.packetReceived service.blockSize service.storage service.fs memory.block
      packet payload).1 with
    | .returned answers => answers
    | _ => []
  | _ => []

/-- The bytes of one call after the other, up to one that does not return. -/
def transmit (webSocket : Bool) : List Answer → List UInt8
  | [] => []
  | (packet,payload)::rest =>
    let sent := sendPacket webSocket packet payload
    if sent.completed then sent.written ++ transmit webSocket rest else sent.written

def calls (service : Service) (memory : Memory) (fuel : Nat) (ssl : σ) : List Answer :=
  service.answers memory (SecNet.construct service.digest memory fuel ssl).outcome

/-- Everything a connection process sends its client through `SSL_write`. -/
def serve (service : Service) (memory : Memory) (fuel : Nat) (ssl : σ) : List UInt8 :=
  let received := SecNet.construct service.digest memory fuel ssl
  received.written ++ transmit received.webSocket (service.calls memory fuel ssl)

end Service

theorem isGet_iff {packet : List UInt8} (h : 4 ≤ packet.length) :
    isGet packet = true ↔ packet.take 4 = ascii "GET " := by
  have hv : leValue (ascii "GET ") = 0x20544547 := by decide
  have hl : (packet.take 4).length = (ascii "GET ").length := List.length_take_of_le h
  rw [isGet,beq_iff_eq,← hv]
  exact ⟨leValue_inj hl,congrArg leValue⟩

/-- Only a first read that brings all four bytes makes a connection a GET request. -/
theorem isGet_fill {bytes : List UInt8} (hl : bytes.length ≤ 10) :
    isGet (fill (List.replicate 10 0) bytes) = true ↔ ascii "GET " <+: bytes := by
  have hlen : (fill (List.replicate 10 0) bytes).length = 10 :=
    length_fill (hl.trans_eq List.length_replicate.symm)
  rw [isGet_iff (by omega),fill,List.drop_replicate]
  constructor
  · intro h
    by_cases h4 : 4 ≤ bytes.length
    · rw [List.take_append_of_le_length h4] at h
      exact List.prefix_iff_eq_take.mpr h.symm
    · have h3 := congrArg (·[3]?) h
      simp only [List.getElem?_take_of_lt (show 3 < 4 by decide)] at h3
      rw [List.getElem?_append_right (by omega),List.getElem?_replicate_of_lt (by omega)] at h3
      exact absurd h3 (by decide)
  · rintro ⟨tail,rfl⟩
    rw [List.append_assoc]
    exact List.take_left' rfl

section First
variable {σ : Type} [Source σ]

theorem sslRead_first (ssl : σ) : sslRead 10 (List.replicate 10 0) ssl =
    (fill (List.replicate 10 0) (Source.read 10 ssl).1,(Source.read 10 ssl).2) := rfl

theorem read_front (ssl : σ) : (Source.read 10 ssl).1 <+: Source.pending ssl :=
  ⟨_,Source.read_append 10 ssl⟩

end First

namespace SecNet
variable {σ : Type} [Source σ] {digest : Digest} {memory : Memory} {fuel : Nat} {ssl ssl' : σ}
  {raw : List UInt8}

/-- Past the admission checks the raw path always emits. -/
theorem construct_raw (hr : sslRead 10 (List.replicate 10 0) ssl = (raw,ssl'))
    (hg : isGet raw = false) (hm : (Packet.ofBytes raw).payloadLength ≤ maxPacketPayloadSize)
    {payload : List UInt8} {ssl'' : σ}
    (hp : sslRead (Packet.ofBytes raw).payloadLength.toNat
      (fresh memory.payload (Packet.ofBytes raw).payloadLength.toNat) ssl' = (payload,ssl'')) :
    construct digest memory fuel ssl =
      ⟨ssl'',memory.webSocket,[],.emit (Packet.ofBytes raw) payload⟩ := by
  have hmax := max_small hm
  have hi := intCount_small (n := (Packet.ofBytes raw).payloadLength) (by omega)
  rw [construct,hr]
  simp only [hg,Bool.false_eq_true,if_false,gt_iff_lt,UInt64.not_lt.mpr hm,hi,hp]

theorem construct_tooLarge (hr : sslRead 10 (List.replicate 10 0) ssl = (raw,ssl'))
    (hg : isGet raw = false) (hm : maxPacketPayloadSize < (Packet.ofBytes raw).payloadLength) :
    construct digest memory fuel ssl =
      ⟨ssl',memory.webSocket,[],.exit (.payloadTooLarge (Packet.ofBytes raw).payloadLength)⟩ := by
  rw [construct,hr]
  simp only [hg,Bool.false_eq_true,if_false,gt_iff_lt,hm,if_true]

/-- On the raw path nothing is written before the emission. -/
theorem construct_of_raw (digest : Digest) (memory : Memory) (fuel : Nat)
    (hr : sslRead 10 (List.replicate 10 0) ssl = (raw,ssl'))
    (hg : isGet raw = false) :
    (construct digest memory fuel ssl).written = [] ∧
    (construct digest memory fuel ssl).webSocket = memory.webSocket ∧
    ∀ packet payload, (construct digest memory fuel ssl).outcome = .emit packet payload →
      packet = Packet.ofBytes raw := by
  rw [construct,hr]
  simp only [hg,Bool.false_eq_true,if_false]
  split
  · exact ⟨rfl,rfl,nofun⟩
  · refine ⟨rfl,rfl,?_⟩
    rintro packet payload h
    cases h
    rfl

theorem construct_get (hr : sslRead 10 (List.replicate 10 0) ssl = (raw,ssl'))
    (hg : isGet raw = true) :
    construct digest memory fuel ssl =
      handleWebSocket digest memory fuel (Packet.ofBytes raw) ssl' := by
  rw [construct,hr]
  simp only [hg,if_true]

/-- A handshake that is not completed writes and emits nothing; a completed one leaves
the process in WebSocket mode. -/
theorem handleWebSocket_cases (digest : Digest) (memory : Memory) (fuel : Nat) (packet : Packet)
    (ssl : σ) :
    ((handleWebSocket digest memory fuel packet ssl).written = [] ∧
      ∀ packet' payload,
        (handleWebSocket digest memory fuel packet ssl).outcome ≠ .emit packet' payload) ∨
    ((handleWebSocket digest memory fuel packet ssl).webSocket = true ∧
      ∃ key, (handleWebSocket digest memory fuel packet ssl).written =
        switchingProtocols (acceptKey digest key)) := by
  rw [handleWebSocket]
  split
  · exact .inl ⟨rfl,nofun⟩
  · exact .inl ⟨rfl,nofun⟩
  · exact .inl ⟨rfl,nofun⟩
  · next key _ _ => exact .inr ⟨rfl,key,rfl⟩

end SecNet

end Shepoo.Server
