import Shepoo.Server.ConnectionOutput
import Shepoo.Server.RecordCuts
import Shepoo.Server.StorageSecrecy

/-! Requests for blocks over whole runs. The length of the file is taken once, when the
server starts; its contents are looked at when a child answers. -/
namespace Shepoo.Server
open Foundation ByteCodec ByteSource MaskedFrame PosixFile

def readRequest (num : UInt64) : Message where
  packet := ⟨supportedVersion,Commands.readBlock.code,8⟩
  payload := be 8 num.toNat
  exact := length_be 8 num.toNat

def blockHeader (blockSize : UInt64) : Packet :=
  ⟨supportedVersion,Commands.blockAnswer.code,blockSize⟩

def blockAnswer (blockSize : UInt64) (block : List UInt8) (h : block.length = blockSize.toNat) :
    Message := ⟨blockHeader blockSize,block,h⟩

def Message.sent (webSocket : Bool) (message : Message) : List UInt8 :=
  if webSocket then (packetFrame message).encode le (sentForm message.bytes.length)
  else message.bytes

theorem sendPacket_sent (webSocket : Bool) (message : Message)
    (h : message.packet.payloadLength.toNat < 2^31) :
    sendPacket webSocket message.packet (some message.payload) =
      ⟨message.sent webSocket,true⟩ := by
  cases webSocket with
  | false => exact sendPacket_raw message h
  | true => exact sendPacket_webSocket message h

/-- From a null pointer only the header is sent, whether the call returns or not. -/
theorem sendPacket_null (webSocket : Bool) (packet : Packet) :
    (sendPacket webSocket packet none).written =
      (if webSocket then frameBytes packet else []) ++ packet.bytes := by
  rw [sendPacket,sslWrite]
  by_cases hn : intCount packet.payloadLength ≤ 0
  · simp only [if_pos hn,List.append_nil]
  · simp only [if_neg hn]

theorem Message.sent_ne_nil (webSocket : Bool) (message : Message) :
    message.sent webSocket ≠ [] := by
  cases webSocket with
  | false => exact List.cons_ne_nil _ _
  | true => exact List.cons_ne_nil _ _

theorem transmit_one (webSocket : Bool) (answer : Answer) :
    Service.transmit webSocket [answer] = (sendPacket webSocket answer.1 answer.2).written := by
  obtain ⟨packet,payload⟩ := answer
  simp only [Service.transmit,List.append_nil,ite_self]

namespace Blockstorage
variable {blockSize num : UInt64} {fs fs₀ : FileSystem} {path : String}

/-- With a length of another time: the block is read where it is now. -/
theorem getBlock_later (h₀ : (num.toNat+1)*blockSize.toNat ≤ (contents fs₀ path).length)
    (h : (num.toNat+1)*blockSize.toNat ≤ (contents fs path).length) (garbage : Nat → UInt8) :
    ((create fs₀ path).getBlock blockSize fs garbage num).1 =
      some (((contents fs path).drop (num.toNat*blockSize.toNat)).take blockSize.toNat) := by
  have hlen := create_fileLength fs₀ path
  have hsmall := contents_small fs₀ path
  have ha : (create fs₀ path).isBlockAvailable blockSize num = true :=
    available_of_inside (by omega) (by omega)
  have hpath : (create fs₀ path).path = path := rfl
  rw [Nat.succ_mul] at h h₀
  have hproduct : (num*blockSize).toNat = num.toNat*blockSize.toNat := by
    rw [UInt64.toNat_mul]
    exact Nat.mod_eq_of_lt (by omega)
  have hpos : blockPosition blockSize num = num.toNat*blockSize.toNat := by
    rw [blockPosition,hproduct,if_pos (by omega)]
  rw [getBlock_available ha,hpos,hpath,fill_full]
  rw [length_fresh,List.length_take,List.length_drop]
  omega

/-- A block behind the end there was at the start is refused. -/
theorem unavailable_behind (hb : blockSize.toNat ≤ (contents fs₀ path).length)
    (h : (contents fs₀ path).length < (num.toNat+1)*blockSize.toNat)
    (hw : num.toNat*blockSize.toNat < 2^64) :
    (create fs₀ path).isBlockAvailable blockSize num = false := by
  have hsmall := contents_small fs₀ path
  rw [Bool.eq_false_iff]
  intro ha
  rw [isBlockAvailable_iff,create_fileLength,Nat.mod_eq_of_lt hw] at ha
  rw [Nat.succ_mul] at h
  omega

end Blockstorage

section Asking
variable {σ : Type} [Source σ] {digest : Digest} {memory : Memory} {fuel : Nat} {ssl : σ}

/-- The connection comes to a request for the block, after the greeting and over either
transport; it does so whatever the memory of the process holds. -/
def Asks (digest : Digest) (num : UInt64) (greeting : List UInt8) (webSocket : Memory → Bool)
    (ssl : σ) : Prop :=
  ∀ memory fuel, (SecNet.construct digest memory fuel ssl).outcome ≠ .running →
    ∃ ssl' payload, Protocol.extractUint64FromPayload payload = some num ∧
      SecNet.construct digest memory fuel ssl =
        ⟨ssl',webSocket memory,greeting,.emit (readRequest num).packet payload⟩

variable {num : UInt64} {greeting : List UInt8} {webSocket : Memory → Bool}

theorem serve_asks (service : Service) (h : Asks service.digest num greeting webSocket ssl)
    (hr : (SecNet.construct service.digest memory fuel ssl).outcome ≠ .running) :
    service.serve memory fuel ssl = greeting ++
      (sendPacket (webSocket memory) (blockHeader service.blockSize)
        (service.storage.getBlock service.blockSize service.fs memory.block num).1).written := by
  obtain ⟨ssl',payload,hn,hc⟩ := h memory fuel hr
  have hanswers : service.answers memory (.emit (readRequest num).packet payload) =
      [(blockHeader service.blockSize,
        (service.storage.getBlock service.blockSize service.fs memory.block num).1)] := by
    rw [Service.answers]
    rw [readRequest]
    rw [Protocol.packetReceived_readBlock _ _ _ _ hn]
    rfl
  rw [ListenLoop.serve_emit service memory fuel ssl (congrArg Received.outcome hc),hanswers,hc,transmit_one]

/-- A block inside the file, now and at the start, is what the client is served. -/
theorem serve_block {fs₀ : FileSystem} {path : String} (service : Service)
    (hstorage : service.storage = Blockstorage.create fs₀ path)
    (hsize : service.blockSize.toNat < 2^31)
    (h₀ : (num.toNat+1)*service.blockSize.toNat ≤ (contents fs₀ path).length)
    (hinside : (num.toNat+1)*service.blockSize.toNat ≤ (contents service.fs path).length)
    (h : Asks service.digest num greeting webSocket ssl) :
    ∃ (block : List UInt8) (hlen : block.length = service.blockSize.toNat),
      IsBlock (contents service.fs path) service.blockSize.toNat num.toNat block ∧
      ∀ memory fuel, (SecNet.construct service.digest memory fuel ssl).outcome ≠ .running →
        service.serve memory fuel ssl =
          greeting ++ (blockAnswer service.blockSize block hlen).sent (webSocket memory) := by
  have hblock : ∀ garbage, (service.storage.getBlock service.blockSize service.fs garbage num).1 =
      some (((contents service.fs path).drop (num.toNat*service.blockSize.toNat)).take
        service.blockSize.toNat) := by
    intro garbage
    rw [hstorage]
    exact Blockstorage.getBlock_later h₀ hinside garbage
  have hlen := Blockstorage.length_getBlock (hblock fun _ => 0)
  refine ⟨_,hlen,⟨hinside,rfl⟩,fun memory fuel hr => ?_⟩
  have hsent := sendPacket_sent (webSocket memory) (blockAnswer service.blockSize _ hlen) hsize
  rw [serve_asks service h hr,hblock]
  exact congrArg (fun sent : Transmission => greeting ++ sent.written) hsent

theorem judgeFrame_ne_running (header : WebSocketFrameHeader) (payloadLength : UInt64)
    (payload : List UInt8) : judgeFrame header payloadLength payload ≠ .running := by
  rw [judgeFrame]
  split
  · exact Outcome.noConfusion
  · split
    · exact Outcome.noConfusion
    · simp only
      split
      · split <;> exact Outcome.noConfusion
      · exact Outcome.noConfusion

theorem handleWebSocketFrame_ne_running (memory : Memory) (ssl : σ) :
    (handleWebSocketFrame memory ssl).1 ≠ .running := by
  rw [handleWebSocketFrame]
  simp only
  split
  · exact Outcome.noConfusion
  · exact judgeFrame_ne_running _ _ _

/-- As long as the handshake is not over, nothing has been written. -/
theorem written_of_running (h : (SecNet.construct digest memory fuel ssl).outcome = .running) :
    (SecNet.construct digest memory fuel ssl).written = [] := by
  unfold SecNet.construct at h ⊢
  simp only at h ⊢
  split
  · next hg =>
    rw [if_pos hg] at h
    unfold SecNet.handleWebSocket at h ⊢
    split
    · rfl
    · rfl
    · rfl
    · next ho =>
      rw [ho] at h
      exact absurd h (handleWebSocketFrame_ne_running _ _)
  · split <;> rfl

end Asking

theorem readRequest_number (num : UInt64) :
    Protocol.extractUint64FromPayload (readRequest num).payload = some num := by
  have h := Protocol.extractUint64FromPayload_be num.toNat_lt []
  rwa [List.append_nil,UInt64.ofNat_toNat] at h

section Raw
open Records
variable {num : UInt64} {ssl : Records} {rest : List UInt8}

/-- A raw client asks for its block if both calls bring what they ask for. -/
theorem asks_raw (hs : stream ssl.cut = (readRequest num).bytes ++ rest)
    (hw : RecordCuts.Whole (readRequest num) ssl) (digest : Digest) :
    Asks digest num [] Memory.webSocket ssl := by
  intro memory fuel _
  have hmax : (readRequest num).packet.payloadLength ≤ maxPacketPayloadSize :=
    show (8 : UInt64) ≤ maxPacketPayloadSize by decide
  have hline : (readRequest num).packet.bytes.take 4 ≠ ascii "GET " :=
    show (⟨supportedVersion,Commands.readBlock.code,8⟩ : Packet).bytes.take 4 ≠ ascii "GET "
      by decide
  have hemit : (SecNet.construct digest memory fuel ssl).outcome =
      .emit (readRequest num).packet (readRequest num).payload :=
    (RecordCuts.delivers_iff hs hmax hline digest fuel).mpr hw memory
  have hget : isGet (fill (List.replicate 10 0) (Source.read 10 ssl).1) = false := by
    rw [Bool.eq_false_iff,ne_eq,isGet_fill (Source.read_length 10 ssl)]
    intro hprefix
    have hstream := hprefix.trans (read_front ssl)
    rw [pending_eq,hs] at hstream
    have hfirst : (71 : UInt8) = supportedVersion := (List.cons_prefix_cons.mp hstream).1
    exact absurd hfirst (by decide)
  obtain ⟨hwritten,hwebSocket,-⟩ :=
    SecNet.construct_of_raw digest memory fuel (sslRead_first ssl) hget
  exact ⟨_,_,readRequest_number num,by rw [← hwritten,← hwebSocket,← hemit]⟩

def twoRecords (message : Message) (h : message.payload ≠ []) : Records where
  cut := [⟨message.packet.bytes,List.cons_ne_nil _ _⟩,⟨message.payload,h⟩]
  limits := []

theorem stream_twoRecords (message : Message) (h : message.payload ≠ []) :
    stream (twoRecords message h).cut = message.bytes ++ [] := rfl

theorem whole_twoRecords (message : Message) (h : message.payload ≠ []) :
    RecordCuts.Whole message (twoRecords message h) := by
  have hten : (twoRecords message h).delivered 10 = 10 := rfl
  have hdrop : message.packet.bytes.drop 10 = [] := rfl
  refine ⟨?_,?_,?_⟩
  · rw [hten,hdrop]
    exact fun b hb => absurd hb List.not_mem_nil
  · rw [hten,stream_twoRecords,List.append_nil,Message.bytes,
      List.drop_left' (Packet.length_bytes _)]
    exact List.take_of_length_le message.exact.le
  · change min message.packet.payloadLength.toNat message.payload.length = _
    rw [message.exact,Nat.min_self]

def blockClient (num : UInt64) : Records :=
  twoRecords (readRequest num) (List.ne_nil_of_length_eq_add_one (readRequest num).exact)

theorem asks_blockClient (digest : Digest) (num : UInt64) :
    Asks digest num [] Memory.webSocket (blockClient num) :=
  asks_raw (stream_twoRecords _ _) (whole_twoRecords _ _) digest

end Raw

namespace ListenLoop
variable {σ : Type} [Source σ] {server : Listener} {fs fs₀ : FileSystem} {path : String}
  {w : State σ} {connection : Nat} {client : Connection σ} {num : UInt64}
  {greeting : List UInt8} {webSocket : Memory → Bool}

/-- In every run, a client that asks for a block inside the file has been sent, once its
child has exited, the block as it stood at one instant of its connection. -/
theorem block_read_at_instant (hstorage : server.storage = Blockstorage.create fs₀ path)
    (hsize : server.blockSize.toNat < 2^31) (ha : Apart server.launch)
    (h : Reaches server (start server fs) w) (hc : w.connections[connection]? = some client)
    (hask : Asks server.digest num greeting webSocket client.ssl)
    (h₀ : (num.toNat+1)*server.blockSize.toNat ≤ (contents fs₀ path).length)
    (hinside : ∀ fs ∈ instants w client,
      (num.toNat+1)*server.blockSize.toNat ≤ (contents fs path).length)
    {c : Child} (hm : c ∈ w.children) (he : c.connection = connection)
    (hexited : c.stage = .exited) :
    ∃ memory, ∃ fs ∈ instants w client, ∃ (block : List UInt8)
      (hlen : block.length = server.blockSize.toNat),
      IsBlock (contents fs path) server.blockSize.toNat num.toNat block ∧
      recordBytes (sentOn connection w.output) =
        greeting ++ (blockAnswer server.blockSize block hlen).sent (webSocket memory) := by
  obtain ⟨memory,fuel,fs',hfs',hr,hsent⟩ := sent_whole ha h hc hm he hexited
  obtain ⟨block,hlen,hblock,hserve⟩ := serve_block (server.service fs') hstorage hsize h₀
    (hinside fs' hfs') hask
  exact ⟨memory,fs',hfs',block,hlen,hblock,hsent.trans (hserve memory fuel hr)⟩

/-- In every run, a client that asks for a block behind the end the file had at the start is
never sent a byte of it, however the file grows. -/
theorem grown_block_withheld (hstorage : server.storage = Blockstorage.create fs₀ path)
    (ha : Apart server.launch) (h : Reaches server (start server fs) w)
    (hc : w.connections[connection]? = some client)
    (hask : Asks server.digest num greeting webSocket client.ssl)
    (hsize : server.blockSize.toNat ≤ (contents fs₀ path).length)
    (hbehind : (contents fs₀ path).length < (num.toNat+1)*server.blockSize.toNat)
    (hwrap : num.toNat*server.blockSize.toNat < 2^64) :
    ∃ memory, recordBytes (sentOn connection w.output) <+:
      greeting ++ ((if webSocket memory then frameBytes (blockHeader server.blockSize) else []) ++
        (blockHeader server.blockSize).bytes) := by
  obtain ⟨memory,fuel,fs',-,hsent⟩ := sent_begun ha h hc
  refine ⟨memory,?_⟩
  by_cases hr : (SecNet.construct server.digest memory fuel client.ssl).outcome = .running
  · have hserve := serve_silent (server.service fs') memory fuel client.ssl
      fun packet payload he => Outcome.noConfusion (hr.symm.trans he)
    have hnone : (SecNet.construct (server.service fs').digest memory fuel client.ssl).written =
      [] := written_of_running hr
    rw [hserve,hnone,List.prefix_nil] at hsent
    rw [hsent]
    exact List.nil_prefix
  · have hunavailable : server.storage.isBlockAvailable server.blockSize num = false := by
      rw [hstorage]
      exact Blockstorage.unavailable_behind hsize hbehind hwrap
    have hserve := serve_asks (server.service fs') hask hr
    change _ = greeting ++ (sendPacket (webSocket memory) (blockHeader server.blockSize)
      (server.storage.getBlock server.blockSize fs' memory.block num).1).written at hserve
    rw [Blockstorage.getBlock_unavailable hunavailable,sendPacket_null] at hserve
    rwa [hserve] at hsent

theorem blockOne_answered : ∃ (w : State Records) (c : Child),
    Reaches blockListener (start blockListener twoBlocks) w ∧ w.phase = .accepting ∧
      w.connections = [⟨blockClient 1,0⟩] ∧ w.past = [] ∧ w.fs = twoBlocks ∧
      w.children = [c] ∧ c.connection = 0 ∧ c.stage = .exited := by
  have h := firstConstructing_reached blockListener twoBlocks (blockClient 1)
  have h := h.tail (.report [] rfl)
  have hs := (sound_reaches h).child _ (List.mem_of_getElem? (i := 0) rfl)
  have h := h.tail (.child (i := 0) rfl
    (childStep_receive hs.1 rfl rfl FrameRoundTrip.someMemory 0 (by decide)))
  have h := h.tail (.child (i := 0) rfl (.dispatch rfl))
  have h := h.tail (.child (i := 0) rfl (.answer rfl))
  have h := h.tail (.child (i := 0) rfl (.finish rfl))
  exact ⟨_,_,h,rfl,rfl,rfl,rfl,rfl,rfl,rfl⟩

theorem block_one_read : ∃ (w : State Records) (memory : Memory) (block : List UInt8)
    (hlen : block.length = (8 : UInt64).toNat),
    IsBlock (contents twoBlocks "/blocks") 8 1 block ∧
      recordBytes (sentOn 0 w.output) = (blockAnswer 8 block hlen).sent memory.webSocket := by
  obtain ⟨w,c,hreach,-,hconnections,hpast,hfs,hchildren,he,hexited⟩ := blockOne_answered
  have hc : w.connections[0]? = some ⟨blockClient 1,0⟩ := by
    rw [hconnections]
    rfl
  have hm : c ∈ w.children := by
    rw [hchildren]
    exact List.mem_singleton_self c
  have hinstants : instants w ⟨blockClient 1,0⟩ = [twoBlocks] := by
    rw [instants,hpast,hfs]
    rfl
  have hinside : ∀ fs ∈ instants w ⟨blockClient 1,0⟩,
      ((1 : UInt64).toNat+1)*(8 : UInt64).toNat ≤ (contents fs "/blocks").length := by
    rw [hinstants]
    intro fs hfs
    rw [List.mem_singleton.mp hfs]
    decide
  have hstorage : blockListener.storage = Blockstorage.create twoBlocks "/blocks" := rfl
  obtain ⟨memory,fs,hfs,block,hlen,hblock,hsent⟩ := block_read_at_instant hstorage (by decide)
    standard_apart hreach hc (asks_blockClient noDigest 1) (by decide) hinside hm he hexited
  rw [hinstants] at hfs
  rw [List.mem_singleton.mp hfs] at hblock
  exact ⟨w,memory,block,hlen,hblock,hsent⟩

def threeBlocks : FileSystem where
  lookup path := if path = "/blocks" then
      some ⟨[1,2,3,4,5,6,7,8,9,10,11,12,13,14,15,16,17,18,19,20,21,22,23,24],by decide⟩
    else none
  empty_path := rfl

/-- The third block is there when the child looks for it. -/
theorem block_two_withheld : ∃ (w : State Records) (memory : Memory),
    IsBlock (contents w.fs "/blocks") 8 2 [17,18,19,20,21,22,23,24] ∧
      (∃ c ∈ w.children, c.connection = 0 ∧ c.stage = .faulted) ∧
      recordBytes (sentOn 0 w.output) <+: [] ++
        ((if memory.webSocket then frameBytes (blockHeader blockListener.blockSize) else []) ++
          (blockHeader blockListener.blockSize).bytes) := by
  have h := firstConstructing_reached blockListener twoBlocks (blockClient 2)
  have h := h.tail (.change threeBlocks)
  have hs := (sound_reaches h).child _ (List.mem_of_getElem? (i := 0) rfl)
  have h := h.tail (.child (i := 0) rfl
    (childStep_receive hs.1 rfl rfl FrameRoundTrip.someMemory 0 (by decide)))
  have h := h.tail (.child (i := 0) rfl (.dispatch rfl))
  have h := h.tail (.child (i := 0) rfl (.answer rfl))
  have hstorage : blockListener.storage = Blockstorage.create twoBlocks "/blocks" := rfl
  obtain ⟨memory,hsent⟩ := grown_block_withheld hstorage standard_apart h
    (show _[0]? = some ⟨blockClient 2,0⟩ from rfl) (asks_blockClient noDigest 2) (by decide)
    (by decide) (by decide)
  exact ⟨_,memory,⟨by decide,rfl⟩,⟨_,List.mem_of_getElem? (i := 0) rfl,rfl,rfl⟩,hsent⟩

end ListenLoop

end Shepoo.Server
