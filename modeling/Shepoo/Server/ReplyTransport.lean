import Shepoo.Server.SecNet
import Shepoo.Server.FrameRoundTrip

/-! The transport of a reply. The constructor knows which path a request took, but
`sendPacket` goes by a member that only one of the two paths sets. -/
namespace Shepoo.Server.ReplyTransport
open Foundation ByteCodec ByteSource MaskedFrame PosixFile

/-- The handler passes as many bytes as the header announces; `NULL` has none. -/
def Declared (answer : Answer) : Prop :=
  (answer.2.getD []).length = answer.1.payloadLength.toNat

instance (answer : Answer) : Decidable (Declared answer) := inferInstanceAs (Decidable (_ = _))

def Bare (written : List UInt8) : Prop :=
  ∃ message : Message, message.packet.version = supportedVersion ∧ written = message.bytes

def Framed (written : List UInt8) : Prop :=
  ∃ (message : Message) (form : LengthForm), message.packet.version = supportedVersion ∧
    form.Admits message.bytes.length ∧ written = (packetFrame message).encode le form

/-- What may be written to a client that sent the stream: nothing, a bare packet to a raw
client, or the 101 answer and at most one frame to a client that asked for it. -/
def TransportKept (stream written : List UInt8) : Prop :=
  written = [] ∨
  (¬ ascii "GET " <+: stream ∧ Bare written) ∨
  (ascii "GET " <+: stream ∧ ∃ accept reply, accept.length = 28 ∧
    written = switchingProtocols accept ++ reply ∧ (reply = [] ∨ Framed reply))

section Answer
variable {answer : Answer}

def declaredMessage (h : Declared answer) : Message := ⟨answer.1,answer.2.getD [],h⟩

/-- A null pointer of length zero is as good as no bytes. -/
private theorem sendPacket_declared (h : Declared answer) (webSocket : Bool) :
    sendPacket webSocket answer.1 answer.2 =
      sendPacket webSocket answer.1 (some (answer.2.getD [])) := by
  obtain ⟨packet,payload⟩ := answer
  cases payload with
  | some bytes => rfl
  | none =>
    have hz : packet.payloadLength = 0 := UInt64.toNat_inj.mp h.symm
    rw [sendPacket,sendPacket,hz]
    rfl

private theorem intCount_lt (n : UInt64) : intCount n < 2^31 := by
  rw [intCount_eq]
  split <;> omega

/-- A length that does not fit an `int` loses part of the payload, or all of it. -/
private theorem payload_cut (h : 2^31 ≤ answer.1.payloadLength.toNat) (webSocket : Bool) :
    ∃ data, data.length < answer.1.payloadLength.toNat ∧
      (sendPacket webSocket answer.1 answer.2).written =
        (if webSocket then frameBytes answer.1 else []) ++ (answer.1.bytes ++ data) := by
  have hcount := intCount_lt answer.1.payloadLength
  rw [sendPacket]
  cases hw : sslWrite (intCount answer.1.payloadLength) answer.2 with
  | none => exact ⟨[],by rw [List.length_nil]; omega,by rw [List.append_nil]⟩
  | some data =>
    refine ⟨data,?_,List.append_assoc ..⟩
    unfold sslWrite at hw
    split at hw
    · cases hw
      rw [List.length_nil]
      omega
    · split at hw
      · cases hw
      · split at hw
        · cases hw
          rw [List.length_take]
          omega
        · cases hw

/-- A header with less than the announced payload is no message. -/
private theorem cut_not_message {packet : Packet} {data : List UInt8}
    (h : data.length < packet.payloadLength.toNat) (message : Message) :
    packet.bytes ++ data ≠ message.bytes := by
  intro he
  have hlen := (Packet.length_bytes packet).trans (Packet.length_bytes message.packet).symm
  obtain ⟨hp,hd⟩ := List.append_inj he hlen
  rw [hd,message.exact,Packet.bytes_injective hp] at h
  exact lt_irrefl _ h

private theorem written_framed (packet : Packet) (payload : Option (List UInt8)) :
    ∃ rest, (sendPacket true packet payload).written = frameBytes packet ++ rest := by
  rw [sendPacket]
  split
  · exact ⟨_,rfl⟩
  · exact ⟨_,List.append_assoc ..⟩

/-- Without a frame a reply is a bare packet if its payload fits the call; in a frame it
never is, for no version starts a frame. -/
theorem bare_iff (hv : answer.1.version = supportedVersion) (hd : Declared answer)
    (webSocket : Bool) : Bare (sendPacket webSocket answer.1 answer.2).written ↔
      answer.1.payloadLength.toNat < 2^31 ∧ webSocket = false := by
  constructor
  · rintro ⟨message,hversion,he⟩
    cases webSocket with
    | false =>
      refine ⟨?_,rfl⟩
      by_contra hn
      obtain ⟨data,hlt,hw⟩ := payload_cut (Nat.le_of_not_lt hn) false
      exact cut_not_message hlt message (hw.symm.trans he)
    | true =>
      obtain ⟨rest,hw⟩ := written_framed answer.1 answer.2
      rw [hw,frameBytes_eq rfl] at he
      have hfirst := (List.cons.inj he).1
      rw [hversion] at hfirst
      exact absurd hfirst (by decide)
  · rintro ⟨hn,rfl⟩
    refine ⟨declaredMessage hd,hv,?_⟩
    rw [sendPacket_declared hd]
    exact congrArg Transmission.written (sendPacket_raw (declaredMessage hd) hn)

theorem framed_iff (hv : answer.1.version = supportedVersion) (hd : Declared answer) :
    Framed (sendPacket true answer.1 answer.2).written ↔
      answer.1.payloadLength.toNat < 2^31 := by
  constructor
  · rintro ⟨message,form,_,hf,he⟩
    by_contra hn
    obtain ⟨data,hlt,hw⟩ := payload_cut (Nat.le_of_not_lt hn) true
    rw [hw,if_pos rfl,frameBytes_eq rfl] at he
    exact cut_not_message hlt message (LengthForm.header_cancel length_le
      (sentForm_admits (UInt64.toNat_lt _)) hf he)
  · intro hn
    have hl := (declaredMessage hd).length_bytes
    have hlt : (declaredMessage hd).packet.payloadLength.toNat < 2^31 := hn
    refine ⟨declaredMessage hd,sentForm (declaredMessage hd).bytes.length,hv,
      sentForm_admits (by omega),?_⟩
    rw [sendPacket_declared hd]
    exact congrArg Transmission.written (sendPacket_webSocket (declaredMessage hd) hn)

private theorem written_ne_nil (webSocket : Bool) (answer : Answer) :
    (sendPacket webSocket answer.1 answer.2).written ≠ [] := by
  have hne : answer.1.bytes ≠ [] := List.cons_ne_nil _ _
  rw [sendPacket]
  split <;> simp [hne]

end Answer

private theorem transmit_single (webSocket : Bool) (answer : Answer) :
    Service.transmit webSocket [answer] = (sendPacket webSocket answer.1 answer.2).written := by
  unfold Service.transmit
  simp only [Service.transmit,List.append_nil,ite_self]

section Law
variable {stream reply : List UInt8}

private theorem raw_kept_iff (hs : ¬ ascii "GET " <+: stream) (hr : reply ≠ []) :
    TransportKept stream reply ↔ Bare reply := by
  constructor
  · rintro (h | h | h)
    · exact absurd h hr
    · exact h.2
    · exact absurd h.1 hs
  · intro h
    exact .inr (.inl ⟨hs,h⟩)

/-- The answer has the same length for every key, so the reply starts at one place. -/
private theorem upgraded_kept_iff (hs : ascii "GET " <+: stream) {accept : List UInt8}
    (ha : accept.length = 28) (hr : reply ≠ []) :
    TransportKept stream (switchingProtocols accept ++ reply) ↔ Framed reply := by
  constructor
  · rintro (h | h | ⟨_,accept',reply',ha',he,h⟩)
    · exact absurd (List.append_eq_nil_iff.mp h).2 hr
    · exact absurd hs h.1
    · have hl : (switchingProtocols accept).length = (switchingProtocols accept').length := by
        simp only [switchingProtocols,List.length_append,ha,ha']
      obtain ⟨_,rfl⟩ := List.append_inj he hl
      exact h.resolve_left hr
  · intro h
    exact .inr (.inr ⟨hs,accept,reply,ha,rfl,.inr h⟩)

end Law

section Connection
variable {σ : Type} [Source σ]

/-- At most one call is made, by a request of the supported version. -/
private theorem calls_cases (service : Service) (memory : Memory) (fuel : Nat) (ssl : σ) :
    service.calls memory fuel ssl = [] ∨ ∃ answer packet payload,
      service.calls memory fuel ssl = [answer] ∧ answer.1.version = supportedVersion ∧
      (SecNet.construct service.digest memory fuel ssl).outcome = .emit packet payload ∧
      packet.version = supportedVersion := by
  rw [Service.calls]
  cases ho : (SecNet.construct service.digest memory fuel ssl).outcome with
  | exit reason => exact .inl rfl
  | fault => exact .inl rfl
  | running => exact .inl rfl
  | emit packet payload =>
    rw [Service.answers]
    cases hd : (Protocol.packetReceived service.blockSize service.storage service.fs
        memory.block packet payload).1 with
    | exit => exact .inl rfl
    | pastPayload => exact .inl rfl
    | returned answers =>
      obtain ⟨hv,hnil | ⟨answer,rfl,ha⟩⟩ := Protocol.packetReceived_answers _ _ _ _ _ _ hd
      · exact .inl hnil
      · exact .inr ⟨answer,packet,payload,rfl,ha,rfl,hv⟩

/-- A GET request whose first read is too short is taken for a packet of version 'G'. -/
private theorem short_get_unsupported {ssl : σ} (h : ascii "GET " <+: Source.pending ssl) :
    (Packet.ofBytes (fill (List.replicate 10 0) (Source.read 10 ssl).1)).version ≠
      supportedVersion := by
  obtain ⟨tail,ht⟩ := h
  have hne : Source.pending ssl ≠ [] := by
    rw [← ht]
    exact List.cons_ne_nil _ _
  obtain ⟨c,bytes,hc⟩ := List.exists_cons_of_ne_nil
    (Source.read_progress 10 ssl (by decide) hne)
  have happ := Source.read_append 10 ssl
  rw [hc,← ht] at happ
  rw [hc]
  have hfirst : c = 71 := (List.cons.inj happ).1
  change c ≠ 1
  rw [hfirst]
  decide

end Connection

def emptyService : Service := ⟨noDigest,4096,Blockstorage.create noFiles "",noFiles⟩

def rawRequest : Wire := ⟨[1,6,8,0,0,0,0,0,0,0,0,0,0,0,0,0,0,0]⟩

/-- Where the storage of `_webSocket` was not zero. -/
def strayMemory : Memory := { FrameRoundTrip.someMemory with webSocket := true }

end Shepoo.Server.ReplyTransport
