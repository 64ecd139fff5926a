import Shepoo.Server.Protocol

/-! What the handlers read of the payload buffer they are given. The buffer is as long as
the packet announces; two handlers compare that length with what they need, one does not. -/
namespace Shepoo.Server.PayloadAccess
open Foundation ByteCodec PosixFile Protocol

inductive Accesses (blockSize : UInt64) (packet : Packet) : Nat → Prop
  | decoder (h : Decodes blockSize packet) {i : Nat} (hi : i < 8) : Accesses blockSize packet i
  /-- the data that goes to `storeBlock` -/
  | region (h : packet = ⟨supportedVersion,Commands.writeBlock.code,8+blockSize⟩) {i : Nat}
    (hi : i < blockSize.toNat) : Accesses blockSize packet (8+i)

/-- No run looks past the payload, and what is answered does not depend on anything
behind it or on the heap. -/
structure WithinPayload (blockSize : UInt64) (storage : Blockstorage) (fs : FileSystem)
    (message : Message) : Prop where
  accesses : ∀ i, Accesses blockSize message.packet i → i < message.packet.payloadLength.toNat
  returns : ∀ garbage, (packetReceived blockSize storage fs garbage message.packet
    message.payload).1 ≠ .pastPayload
  determined : ∀ garbage garbage' tail tail',
    (packetReceived blockSize storage fs garbage message.packet (message.payload ++ tail)).1 =
      (packetReceived blockSize storage fs garbage' message.packet (message.payload ++ tail')).1

variable {blockSize : UInt64} {storage : Blockstorage} {fs : FileSystem} {packet : Packet}

/-- Payloads that agree wherever they are accessed are answered alike. -/
theorem packetReceived_congr {payload payload' : List UInt8}
    (h : ∀ i, Accesses blockSize packet i → payload[i]? = payload'[i]?)
    (garbage : Nat → UInt8) :
    (packetReceived blockSize storage fs garbage packet payload).1 =
      (packetReceived blockSize storage fs garbage packet payload').1 := by
  by_cases hd : Decodes blockSize packet
  · have hi (i : Nat) (hi : i < 8) : payload[i]? = payload'[i]? := h i (.decoder hd hi)
    have he : extractUint64FromPayload payload = extractUint64FromPayload payload' := by
      unfold extractUint64FromPayload
      rw [hi 0 (by omega),hi 1 (by omega),hi 2 (by omega),hi 3 (by omega),hi 4 (by omega),
        hi 5 (by omega),hi 6 (by omega),hi 7 (by omega)]
    simp only [packetReceived,he,Blockstorage.storeBlock]
  · obtain ⟨dispatch,_,hall⟩ := packetReceived_undecoded hd
    rw [hall,hall]

/-- The out-of-range branch is an access past the end of the buffer. -/
theorem pastPayload_iff (storage : Blockstorage) (fs : FileSystem) (garbage : Nat → UInt8)
    (payload : List UInt8) :
    (packetReceived blockSize storage fs garbage packet payload).1 = .pastPayload ↔
      Decodes blockSize packet ∧ payload.length < 8 := by
  constructor
  · intro hp
    have hd : Decodes blockSize packet := by
      by_contra hd
      obtain ⟨dispatch,hdispatch,hall⟩ := packetReceived_undecoded hd
      rw [hall] at hp
      rcases hdispatch with rfl | ⟨rfl,_⟩ <;> cases hp
    refine ⟨hd,?_⟩
    by_contra hl
    obtain ⟨answer,ha,_⟩ := packetReceived_decoded hd storage fs garbage
      (extractUint64FromPayload_long (Nat.not_lt.mp hl))
    rw [ha] at hp
    cases hp
  · rintro ⟨hd,hl⟩
    exact packetReceived_pastPayload hd storage fs garbage hl

/-- For a packet whose accesses all fall into its payload only the heap is left to look at. -/
private theorem within_of_accesses {message : Message}
    (ha : ∀ i, Accesses blockSize message.packet i → i < message.packet.payloadLength.toNat)
    (hg : ∀ garbage garbage',
      (packetReceived blockSize storage fs garbage message.packet message.payload).1 =
        (packetReceived blockSize storage fs garbage' message.packet message.payload).1) :
    WithinPayload blockSize storage fs message := by
  have htail (garbage : Nat → UInt8) (tail : List UInt8) :
      (packetReceived blockSize storage fs garbage message.packet (message.payload ++ tail)).1 =
        (packetReceived blockSize storage fs garbage message.packet message.payload).1 := by
    apply packetReceived_congr
    intro i hi
    exact List.getElem?_append_left (message.exact.symm ▸ ha i hi)
  refine ⟨ha,fun garbage hp => ?_,fun garbage garbage' tail tail' => ?_⟩
  · obtain ⟨hd,hl⟩ := (pastPayload_iff storage fs garbage message.payload).mp hp
    have h7 := ha 7 (.decoder hd (by omega))
    rw [message.exact] at hl
    omega
  · rw [htail,htail]
    exact hg garbage garbage'

private theorem writeLength_toNat (blockSize : UInt64) :
    (8+blockSize).toNat = (8+blockSize.toNat) % 2^64 := UInt64.toNat_add 8 blockSize

/-- Three answers of a handler do not look at the heap, the fourth one is a block. -/
private theorem heap_only_blocks {payload : List UInt8} (hl : 8 ≤ payload.length)
    (hd : Decodes blockSize packet)
    (hread : packet = ⟨supportedVersion,Commands.readBlock.code,8⟩ →
      ∀ garbage garbage', (storage.getBlock blockSize fs garbage (blockNumber payload)).1 =
        (storage.getBlock blockSize fs garbage' (blockNumber payload)).1)
    (garbage garbage' : Nat → UInt8) :
    (packetReceived blockSize storage fs garbage packet payload).1 =
      (packetReceived blockSize storage fs garbage' packet payload).1 := by
  have hn := extractUint64FromPayload_long hl
  cases hd with
  | readBlock =>
    rw [packetReceived_readBlock _ _ _ _ hn,packetReceived_readBlock _ _ _ _ hn,
      hread rfl garbage garbage']
  | writeBlock =>
    rw [packetReceived_writeBlock _ _ _ _ hn,packetReceived_writeBlock _ _ _ _ hn]
  | isBlockAvailable n =>
    rw [packetReceived_isBlockAvailable _ _ _ _ n hn,
      packetReceived_isBlockAvailable _ _ _ _ n hn]

/-- The payload is enough exactly when an availability request brings a block number, the
length of a write request does not wrap, and the file has all of a block that is read. -/
theorem within_payload_iff (blockSize : UInt64) (storage : Blockstorage) (fs : FileSystem)
    (message : Message) :
    WithinPayload blockSize storage fs message ↔
      (∀ n, message.packet = ⟨supportedVersion,Commands.isBlockAvailable.code,n⟩ →
        8 ≤ n.toNat) ∧
      (message.packet = ⟨supportedVersion,Commands.writeBlock.code,8+blockSize⟩ →
        8+blockSize.toNat < 2^64) ∧
      (message.packet = ⟨supportedVersion,Commands.readBlock.code,8⟩ →
        storage.isBlockAvailable blockSize (blockNumber message.payload) = true →
        blockSize = 0 ∨ Blockstorage.blockPosition blockSize (blockNumber message.payload) +
          blockSize.toNat ≤ (contents fs storage.path).length) := by
  obtain ⟨packet,payload,hexact⟩ := message
  constructor
  · rintro ⟨haccesses,hreturns,hdetermined⟩
    refine ⟨?_,?_,?_⟩
    · rintro n rfl
      exact haccesses 7 (.decoder (.isBlockAvailable n) (by omega))
    · rintro rfl
      have h7 := haccesses 7 (.decoder .writeBlock (by omega))
      change 7 < (8+blockSize).toNat at h7
      rw [writeLength_toNat] at h7
      have := blockSize.toNat_lt
      omega
    · rintro rfl
      have hl : 8 ≤ payload.length := hexact.ge
      have hn := extractUint64FromPayload_long hl
      refine (Blockstorage.getBlock_determined_iff ..).mp fun garbage garbage' => ?_
      have hsame := hdetermined garbage garbage' [] []
      simp only [List.append_nil] at hsame
      rw [packetReceived_readBlock _ _ _ _ hn,packetReceived_readBlock _ _ _ _ hn] at hsame
      simpa using hsame
  · rintro ⟨havailable,hwrite,hread⟩
    have haccesses : ∀ i, Accesses blockSize packet i → i < packet.payloadLength.toNat := by
      intro i hi
      cases hi with
      | decoder hd hi =>
        cases hd with
        | readBlock => exact hi
        | writeBlock =>
          change i < (8+blockSize).toNat
          rw [writeLength_toNat,Nat.mod_eq_of_lt (hwrite rfl)]
          omega
        | isBlockAvailable n => exact hi.trans_le (havailable n rfl)
      | region h hi =>
        subst h
        change 8+_ < (8+blockSize).toNat
        rw [writeLength_toNat,Nat.mod_eq_of_lt (hwrite rfl)]
        omega
    refine within_of_accesses haccesses fun garbage garbage' => ?_
    by_cases hd : Decodes blockSize packet
    · have h7 := haccesses 7 (.decoder hd (by omega))
      refine heap_only_blocks (hexact.symm ▸ h7) hd (fun hp => ?_) garbage garbage'
      exact (Blockstorage.getBlock_determined_iff ..).mpr (hread hp)
    · obtain ⟨dispatch,_,hall⟩ := packetReceived_undecoded hd
      rw [hall,hall]

def emptyRequest : Message where
  packet := ⟨supportedVersion,Commands.isBlockAvailable.code,0⟩
  payload := []
  exact := rfl

/-- The decoder reads eight bytes of a buffer that has none. -/
theorem empty_request_past_payload :
    ¬ WithinPayload 4096 (Blockstorage.create noFiles "") noFiles emptyRequest := by
  intro h
  exact h.returns (fun _ => 0) (packetReceived_pastPayload (.isBlockAvailable 0) _ _ _ (by decide))

end Shepoo.Server.PayloadAccess
