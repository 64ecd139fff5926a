import Shepoo.Foundation.Settling
import Shepoo.Foundation.SourceMap
import Shepoo.Server.BlockService
import Shepoo.Server.ClientFrames
import Shepoo.Server.FrameAlignment
import Shepoo.Server.UpgradeRequests

/-! Sessions over a WebSocket, from the request line to the answer in its frame, and what
they have in common with raw ones. -/
namespace Shepoo.Server
open Foundation ByteCodec ByteSource BoundedLoop MaskedFrame PosixFile Records RequestSplit

section Map
variable {σ τ : Type} [Source σ] [Source τ] (f : SourceMap σ τ)

theorem sslRead_map (num : Int) (buffer : List UInt8) (ssl : σ) :
    sslRead num buffer (f.map ssl) =
      ((sslRead num buffer ssl).1,f.map (sslRead num buffer ssl).2) := by
  unfold sslRead
  split
  · rfl
  · rw [f.read]

theorem readPayloadLength_map (memory : Memory) (header : WebSocketFrameHeader) (ssl : σ) :
    readPayloadLength memory header (f.map ssl) =
      ((readPayloadLength memory header ssl).1,f.map (readPayloadLength memory header ssl).2) := by
  unfold readPayloadLength
  split
  · rw [sslRead_map f]
  · split
    · rw [sslRead_map f]
    · rfl

theorem readMaskingKey_map (header : WebSocketFrameHeader) (ssl : σ) :
    readMaskingKey header (f.map ssl) =
      ((readMaskingKey header ssl).1,f.map (readMaskingKey header ssl).2) := by
  unfold readMaskingKey
  split
  · exact sslRead_map f ..
  · rfl

/-- The frame reader cannot tell a connection from one that reads the same. -/
theorem handleWebSocketFrame_map (memory : Memory) (ssl : σ) :
    handleWebSocketFrame memory (f.map ssl) =
      ((handleWebSocketFrame memory ssl).1,f.map (handleWebSocketFrame memory ssl).2) := by
  unfold handleWebSocketFrame
  simp only [sslRead_map f,readPayloadLength_map f,readMaskingKey_map f]
  split <;> rfl

end Map

section Handshake
variable {σ : Type} [Source σ]

/-- The handshake comes to the same result on every budget that is large enough. -/
theorem handshake_settles (packet : Packet) (ssl : σ) :
    Settles fun fuel => handshake fuel packet ssl := by
  have hcopy : ∀ stop line s, Settles fun fuel => copy stop line fuel s :=
    fun stop line s => .loop _ _ _
  have hsplit : ∀ line, Settles fun fuel => splitHeader fuel line := fun line =>
    .bind (hcopy _ _ _) fun name => .bind (hcopy _ _ _) fun content => .const _
  have hline : ∀ extracted line, Settles fun fuel => extractLine fuel extracted line :=
    fun extracted line => .bind (hsplit line) fun header => .const _
  have hreader : Settles fun fuel => readHeaders fuel packet ssl :=
    .bind (.const _) fun table => .loop _ _ _
  exact .bind hreader fun reader => .bind
    (.foldlM (fun extracted i => .bind (.const _) fun line => hline extracted line) _ _)
    fun extracted => .const _

end Handshake

/-- A client whose upgrade request is accepted, and that sends the first frame in a record of
its own. -/
structure UpgradedClient where
  block : HeaderBlock
  cut : List Record
  cut_bytes : stream cut = block.bytes
  frame : Record
  first : (Source.read 10 (⟨cut ++ [frame],[]⟩ : Records)).1.length = 10
  key : List UInt8
  accepted : ∃ fuel ssl, handshake fuel (firstPacket (⟨cut ++ [frame],[]⟩ : Records))
    (afterFirst (⟨cut ++ [frame],[]⟩ : Records)) = .done (.ok key,ssl)

namespace UpgradedClient

def connection (client : UpgradedClient) : Records := ⟨client.cut ++ [client.frame],[]⟩

variable (client : UpgradedClient)

private theorem pending_connection : Source.pending client.connection =
    client.block.bytes ++ stream [client.frame] := by
  rw [connection,pending_eq,stream_append,client.cut_bytes]

private theorem handshake_done : ∃ enough ssl,
    handshake enough (firstPacket client.connection) (afterFirst client.connection) =
      .done (.ok client.key,ssl) ∧
    ∀ fuel, handshake fuel (firstPacket client.connection) (afterFirst client.connection) ≠
      .running → handshake fuel (firstPacket client.connection) (afterFirst client.connection) =
        .done (.ok client.key,ssl) := by
  obtain ⟨enough,ssl,hdone⟩ := client.accepted
  change handshake enough (firstPacket client.connection) (afterFirst client.connection) = _
    at hdone
  have hend : handshake enough (firstPacket client.connection) (afterFirst client.connection) ≠
      .running := by
    rw [hdone]
    exact nofun
  exact ⟨enough,ssl,hdone,fun fuel hr => ((handshake_settles _ _).unique hr hend).trans hdone⟩

/-- The constructor answers the handshake and comes to the first byte of the frame. -/
theorem construct_eq (digest : Digest) (memory : Memory) (fuel : Nat)
    (hr : (SecNet.construct digest memory fuel client.connection).outcome ≠ .running) :
    SecNet.construct digest memory fuel client.connection =
      ⟨(handleWebSocketFrame memory (single client.frame.val)).2,true,
        switchingProtocols (acceptKey digest client.key),
        (handleWebSocketFrame memory (single client.frame.val)).1⟩ := by
  have hblock := construct_block client.block client.pending_connection client.first digest
    memory fuel
  rw [hblock] at hr ⊢
  obtain ⟨enough,ssl,hdone,hunique⟩ := client.handshake_done
  have hsettled := hunique fuel fun hrunning => by
    rw [SecNet.handleWebSocket,hrunning] at hr
    exact hr rfl
  obtain ⟨reader,hreader,hrest⟩ := Progress.bind_eq_done.mp hdone
  obtain ⟨extracted,-,hresult⟩ := Progress.bind_eq_done.mp hrest
  have hssl : reader.ssl = ssl := congrArg Prod.snd (Progress.done.inj hresult)
  obtain ⟨record,hrecord,hlast⟩ :=
    FrameAlignment.done_before_lf client.block client.cut_bytes client.first hreader
  have hframe : (⟨[client.frame],[]⟩ : Records) = single client.frame.val := by
    rw [single,restore,dif_neg client.frame.property]
  rw [SecNet.handleWebSocket,hsettled]
  simp only [← hssl,hlast,FrameAlignment.drain_record hrecord,hframe]

theorem construct_settled (digest : Digest) : ∃ cost, ∀ fuel, cost ≤ fuel → ∀ memory,
    (SecNet.construct digest memory fuel client.connection).outcome ≠ .running := by
  obtain ⟨enough,ssl,hdone,-⟩ := client.handshake_done
  refine ⟨enough,fun fuel hf memory => ?_⟩
  have hend : handshake enough (firstPacket client.connection) (afterFirst client.connection) ≠
      .running := by
    rw [hdone]
    exact nofun
  have hsettled : handshake fuel (firstPacket client.connection) (afterFirst client.connection) =
      .done (.ok client.key,ssl) := (handshake_settles _ _ enough fuel hf hend).trans hdone
  rw [construct_block client.block client.pending_connection client.first digest memory fuel,
    SecNet.handleWebSocket,hsettled]
  exact handleWebSocketFrame_ne_running _ _

variable {client} {message : Message} {frame : Frame} {form : LengthForm}

/-- The frame carries the message in one of the length forms, in host order. -/
structure Carries (client : UpgradedClient) (message : Message) : Prop where
  frame : ∃ (frame : Frame) (form : LengthForm), frame.data = message.bytes ∧
    frame.opcode = 0x02 ∧ form.Admits message.bytes.length ∧
    client.frame.val = frame.encode le form
  small : message.bytes.length < 2^31

theorem construct_carries (hm : Carries client message) (digest : Digest) (memory : Memory)
    (fuel : Nat)
    (hr : (SecNet.construct digest memory fuel client.connection).outcome ≠ .running) :
    ∃ ssl, SecNet.construct digest memory fuel client.connection =
      ⟨ssl,true,switchingProtocols (acceptKey digest client.key),
        .emit message.packet (message.payload ++ [0])⟩ := by
  obtain ⟨frame,form,hd,ho,hf,hframe⟩ := hm.frame
  have hwire := FrameRoundTrip.message_frame_emitted memory message hd ho hf hm.small []
  have hrecord := handleWebSocketFrame_map Wire.toRecord memory ⟨frame.encode le form ++ []⟩
  rw [hwire] at hrecord
  refine ⟨Wire.toRecord.map ⟨[]⟩,?_⟩
  rw [client.construct_eq digest memory fuel hr,hframe]
  have hmap : (single (frame.encode le form)) =
      Wire.toRecord.map ⟨frame.encode le form ++ []⟩ := by
    rw [List.append_nil]
    rfl
  rw [hmap,hrecord]

/-- A client that carries a request for a block asks for it in the sense of all runs. -/
theorem asks_upgraded {num : UInt64} (hm : Carries client (readRequest num)) (digest : Digest) :
    Asks digest num (switchingProtocols (acceptKey digest client.key)) (fun _ => true)
      client.connection := by
  intro memory fuel hr
  obtain ⟨ssl,hconstruct⟩ := construct_carries hm digest memory fuel hr
  refine ⟨ssl,_,?_,hconstruct⟩
  have h := Protocol.extractUint64FromPayload_be num.toNat_lt [0]
  rwa [UInt64.ofNat_toNat] at h

/-- The whole of a session: the handshake is answered and the block follows in a frame of
its own, whatever the memory of the process holds. -/
theorem block_session {num : UInt64} (hm : Carries client (readRequest num)) (service : Service)
    {path : String} (hstorage : service.storage = Blockstorage.create service.fs path)
    (hsize : service.blockSize.toNat < 2^31)
    (hinside : (num.toNat+1)*service.blockSize.toNat ≤ (contents service.fs path).length) :
    ∃ (block : List UInt8) (hlen : block.length = service.blockSize.toNat) (cost : Nat),
      IsBlock (contents service.fs path) service.blockSize.toNat num.toNat block ∧
      ∀ fuel, cost ≤ fuel → ∀ memory, service.serve memory fuel client.connection =
        switchingProtocols (acceptKey service.digest client.key) ++
          (blockAnswer service.blockSize block hlen).sent true := by
  obtain ⟨block,hlen,hblock,hserve⟩ := serve_block service hstorage hsize hinside hinside
    (asks_upgraded hm service.digest)
  obtain ⟨cost,hcost⟩ := client.construct_settled service.digest
  exact ⟨block,hlen,cost,hblock,fun fuel hf memory => hserve memory fuel (hcost fuel hf memory)⟩

end UpgradedClient

section Example
open FrameAlignment ListenLoop HandshakeReading UpgradeRequests

private theorem passing_accepted (frame : Record) :
    ∃ fuel ssl, handshake fuel (firstPacket (⟨passingCut ++ [frame],[]⟩ : Records))
      (afterFirst (⟨passingCut ++ [frame],[]⟩ : Records)) = .done (.ok (ascii "AQ=="),ssl) := by
  have hcut : stream passingCut = passingBlock.bytes := by decide
  have hstream : (firstPacket (⟨passingCut ++ [frame],[]⟩ : Records)).bytes ++
      Source.pending (afterFirst (⟨passingCut ++ [frame],[]⟩ : Records)) =
      terminated passingBlock.lines ++ cr::lf::stream [frame] := by
    rw [firstPacket_append rfl,pending_eq,stream_append,hcut,HeaderBlock.bytes,List.append_assoc]
    rfl
  obtain ⟨ssl,cost,-,hhandshake⟩ := handshake_lines passingBlock.clean passingBlock.lines_ne_nil
    passingBlock.lines_few passingBlock.long hstream
  have hshort : ∀ line ∈ passingBlock.headers.dropLast, line.length < 2^32 := by decide
  obtain ⟨cost',hextract⟩ := HeaderExtraction.extract_short hshort
  refine ⟨max cost cost',ssl,?_⟩
  rw [hhandshake _ (le_max_left ..),hextract _ (le_max_right ..),Progress.bind_done]
  have hcheck : checkHeaders (passingBlock.headers.dropLast.foldl HeaderExtraction.extractStep
    Extracted.empty) = .ok (ascii "AQ==") := by decide
  rw [hcheck]
  rfl

def passingClient (frame : Record) : UpgradedClient where
  block := passingBlock
  cut := passingCut
  cut_bytes := by decide
  frame := frame
  first := rfl
  key := ascii "AQ=="
  accepted := passing_accepted frame

def maskedFrame (message : Message) : Record :=
  ⟨(ClientFrames.clientFrame message ClientFrames.someKey).encode le .short,List.cons_ne_nil _ _⟩

theorem passingClient_carries {message : Message} (h : message.bytes.length < 126) :
    (passingClient (maskedFrame message)).Carries message where
  frame := ⟨ClientFrames.clientFrame message ClientFrames.someKey,.short,rfl,rfl,h,rfl⟩
  small := h.trans (by decide)

def upgradedReader : UpgradedClient := passingClient (maskedFrame (readRequest 1))

theorem upgradedReader_carries : upgradedReader.Carries (readRequest 1) :=
  passingClient_carries (by decide)

def upgradingService : Service := { blockListener.service twoBlocks with digest := tableDigest }

theorem upgradedReader_session : ∃ (block : List UInt8)
    (hlen : block.length = upgradingService.blockSize.toNat) (cost : Nat),
    IsBlock (contents twoBlocks "/blocks") 8 1 block ∧
    ∀ fuel, cost ≤ fuel → ∀ memory,
      upgradingService.serve memory fuel upgradedReader.connection =
        switchingProtocols (ascii "y1pl+t+8DK4kj0WJs9VoQHVHbMo=") ++
          (blockAnswer upgradingService.blockSize block hlen).sent true := by
  rw [← acceptKey_table]
  exact UpgradedClient.block_session upgradedReader_carries upgradingService rfl (by decide)
    (by decide)

end Example

section Transports
/-- The zero behind a frame's payload is taken for an eighth byte of seven. -/
private theorem answers_terminated (service : Service) (memory : Memory) (message : Message) :
    service.answers memory (.emit message.packet message.payload) =
      service.answers memory (.emit message.packet (message.payload ++ [0])) ↔
    ¬ (Protocol.Decodes service.blockSize message.packet ∧ message.payload.length = 7) := by
  have hlong : (message.payload ++ [0]).length = message.payload.length+1 := by simp
  constructor
  · rintro h ⟨hd,hseven⟩
    have hraw := Protocol.packetReceived_pastPayload hd service.storage service.fs memory.block
      (show message.payload.length < 8 by omega)
    obtain ⟨answer,hframed,-⟩ := Protocol.packetReceived_decoded hd service.storage service.fs
      memory.block (Protocol.extractUint64FromPayload_long
        (show 8 ≤ (message.payload ++ [0]).length by omega))
    rw [Service.answers,Service.answers,hraw,hframed] at h
    cases h
  · intro h
    have hsame : (Protocol.packetReceived service.blockSize service.storage service.fs
        memory.block message.packet message.payload).1 =
        (Protocol.packetReceived service.blockSize service.storage service.fs memory.block
          message.packet (message.payload ++ [0])).1 := by
      by_cases hd : Protocol.Decodes service.blockSize message.packet
      · have hne : message.payload.length ≠ 7 := fun hseven => h ⟨hd,hseven⟩
        refine packetReceived_congr ?_ fun num hnum => rfl
        rw [Protocol.extractUint64FromPayload_eq,Protocol.extractUint64FromPayload_eq,hlong]
        by_cases hl : 8 ≤ message.payload.length
        · rw [if_pos hl,if_pos (by omega),List.take_append_of_le_length hl]
        · rw [if_neg hl,if_neg (by omega)]
      · obtain ⟨dispatch,-,hall⟩ := Protocol.packetReceived_undecoded hd
        rw [hall,hall]
    rw [Service.answers,Service.answers,hsame]

/-- A number of seven bytes. -/
def sevenBytes : Message := ⟨⟨supportedVersion,Commands.isBlockAvailable.code,7⟩,[0,0,0,0,0,0,0],rfl⟩

def sevenClient : Records := twoRecords sevenBytes (List.cons_ne_nil _ _)

end Transports
end Shepoo.Server
