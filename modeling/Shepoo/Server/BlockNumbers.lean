import Shepoo.Server.Protocol

/-! Block numbers of requests. The decoder is a bijection between eight-byte prefixes and
64-bit values, and every handler addresses the storage through it. -/
namespace Shepoo.Server.BlockNumbers
open Foundation ByteCodec PosixFile Protocol

inductive StorageCall where
  | getBlock (num : UInt64)
  | storeBlock (num : UInt64) (data : List UInt8)
  | isBlockAvailable (num : UInt64)
  deriving DecidableEq, Repr

namespace StorageCall

def block : StorageCall → UInt64
  | getBlock num => num
  | storeBlock num _ => num
  | isBlockAvailable num => num

def answer (blockSize : UInt64) (storage : Blockstorage) (fs : FileSystem)
    (garbage : Nat → UInt8) : StorageCall → Dispatch × FileSystem
  | getBlock num =>
    (.returned [(⟨supportedVersion,Commands.blockAnswer.code,blockSize⟩,
      (storage.getBlock blockSize fs garbage num).1)],fs)
  | storeBlock num data =>
    (.returned [(⟨supportedVersion,Commands.ok.code,0⟩,none)],
      Blockstorage.storeBlock fs num data)
  | isBlockAvailable num =>
    (.returned [(⟨supportedVersion,
      (if storage.isBlockAvailable blockSize num then Commands.ok else Commands.nok).code,0⟩,
      none)],fs)

end StorageCall

def storageCall (packet : Packet) (payload : List UInt8) : Option StorageCall :=
  match Commands.ofCode packet.command with
  | some .readBlock => (extractUint64FromPayload payload).map .getBlock
  | some .writeBlock =>
    (extractUint64FromPayload payload).map fun num => .storeBlock num (payload.drop 8)
  | some .isBlockAvailable => (extractUint64FromPayload payload).map .isBlockAvailable
  | _ => none

variable {blockSize : UInt64} {packet packet' : Packet} {payload payload' : List UInt8}

/-- The number in a storage call is the decoded one. -/
theorem storageCall_decodes {call : StorageCall} (hc : storageCall packet payload = some call) :
    extractUint64FromPayload payload = some call.block := by
  unfold storageCall at hc
  split at hc
  · obtain ⟨num,hn,rfl⟩ := Option.map_eq_some_iff.mp hc
    exact hn
  · obtain ⟨num,hn,rfl⟩ := Option.map_eq_some_iff.mp hc
    exact hn
  · obtain ⟨num,hn,rfl⟩ := Option.map_eq_some_iff.mp hc
    exact hn
  · cases hc

/-- Handling a decodable packet is making its storage call and answering it. -/
theorem packetReceived_storageCall (h : Decodes blockSize packet) {call : StorageCall}
    (hc : storageCall packet payload = some call) (storage : Blockstorage) (fs : FileSystem)
    (garbage : Nat → UInt8) :
    packetReceived blockSize storage fs garbage packet payload =
      call.answer blockSize storage fs garbage := by
  obtain ⟨num,hn⟩ : ∃ num, extractUint64FromPayload payload = some num :=
    ⟨call.block,storageCall_decodes hc⟩
  cases h with
  | readBlock =>
    rw [storageCall,hn] at hc
    cases hc
    simp [packetReceived,StorageCall.answer,Commands.code,Commands.ofCode,hn]
  | writeBlock =>
    rw [storageCall,hn] at hc
    cases hc
    simp [packetReceived,StorageCall.answer,Commands.code,Commands.ofCode,hn]
  | isBlockAvailable n =>
    rw [storageCall,hn] at hc
    cases hc
    simp [packetReceived,StorageCall.answer,Commands.code,Commands.ofCode,hn]

/-- The call of a decodable packet is about the block its payload starts with. -/
theorem storageCall_block (h : Decodes blockSize packet) (hl : 8 ≤ payload.length) :
    ∃ call, storageCall packet payload = some call ∧ call.block = blockNumber payload := by
  have hn := extractUint64FromPayload_long hl
  cases h with
  | readBlock =>
    refine ⟨.getBlock (blockNumber payload),?_,rfl⟩
    simp [storageCall,Commands.ofCode,Commands.code,hn]
  | writeBlock =>
    refine ⟨.storeBlock (blockNumber payload) (payload.drop 8),?_,rfl⟩
    simp [storageCall,Commands.ofCode,Commands.code,hn]
  | isBlockAvailable n =>
    refine ⟨.isBlockAvailable (blockNumber payload),?_,rfl⟩
    simp [storageCall,Commands.ofCode,Commands.code,hn]

private theorem blockNumber_toNat (hl : 8 ≤ payload.length) :
    (blockNumber payload).toNat = beValue (payload.take 8) := by
  have h := leValue_lt (payload.take 8).reverse
  rw [List.length_reverse,List.length_take,Nat.min_eq_left hl] at h
  rw [blockNumber,UInt64.toNat_ofNat']
  exact Nat.mod_eq_of_lt (h.trans_eq (by norm_num))

theorem be_blockNumber (hl : 8 ≤ payload.length) :
    be 8 (blockNumber payload).toNat = payload.take 8 := by
  have h := be_beValue (payload.take 8)
  rw [List.length_take,Nat.min_eq_left hl] at h
  rw [blockNumber_toNat hl,h]

theorem blockNumber_be (num : UInt64) (rest : List UInt8) :
    blockNumber (be 8 num.toNat ++ rest) = num := by
  have hn : num.toNat < 256^8 := num.toNat_lt.trans_eq (by norm_num)
  rw [blockNumber,List.take_left' (length_be 8 num.toNat),beValue_be_of_lt hn,UInt64.ofNat_toNat]

theorem blockNumber_inj (hl : 8 ≤ payload.length) (hl' : 8 ≤ payload'.length) :
    blockNumber payload = blockNumber payload' ↔ payload.take 8 = payload'.take 8 := by
  constructor
  · intro h
    rw [← be_blockNumber hl,h,be_blockNumber hl']
  · intro h
    rw [blockNumber,h,blockNumber]

/-- The decoded number is the positional sum of the first eight bytes. -/
theorem blockNumber_sum (hl : 8 ≤ payload.length) :
    (blockNumber payload).toNat =
      ∑ i : Fin 8,(payload.get (i.castLE hl)).toNat*256^(7-i.val) := by
  have ht : (payload.take 8).length = 8 := by rw [List.length_take,Nat.min_eq_left hl]
  rw [blockNumber_toNat hl,beValue_eq_sum ht]
  apply Finset.sum_congr rfl
  intro i _
  rw [List.get_eq_getElem,List.getElem_take]
  rfl

/-- No bit is lost or overlapped, only the first eight bytes matter, both round trips give
back what went in, and requests are about the same block exactly if they start alike. -/
theorem block_numbers_lossless (hl : 8 ≤ payload.length) :
    (∃ num, extractUint64FromPayload payload = some num ∧
      num.toNat = ∑ i : Fin 8,(payload.get (i.castLE hl)).toNat*256^(7-i.val) ∧
      be 8 num.toNat = payload.take 8) ∧
    (∀ rest, extractUint64FromPayload (payload.take 8 ++ rest) =
      extractUint64FromPayload payload) ∧
    (∀ (num : UInt64) rest,
      extractUint64FromPayload (be 8 num.toNat ++ rest) = some num) ∧
    ∀ blockSize packet packet' payload', Decodes blockSize packet → Decodes blockSize packet' →
      8 ≤ payload'.length →
      ∃ call call', storageCall packet payload = some call ∧
        storageCall packet' payload' = some call' ∧
        (call.block = call'.block ↔ payload.take 8 = payload'.take 8) ∧
        ∀ storage fs garbage,
          packetReceived blockSize storage fs garbage packet payload =
            call.answer blockSize storage fs garbage ∧
          packetReceived blockSize storage fs garbage packet' payload' =
            call'.answer blockSize storage fs garbage := by
  have ht : (payload.take 8).length = 8 := by rw [List.length_take,Nat.min_eq_left hl]
  refine ⟨⟨blockNumber payload,extractUint64FromPayload_long hl,blockNumber_sum hl,
    be_blockNumber hl⟩,fun rest => ?_,fun num rest => ?_,?_⟩
  · rw [extractUint64FromPayload_long hl,extractUint64FromPayload_long (by simp [ht]),
      blockNumber,List.take_left' ht,blockNumber]
  · rw [extractUint64FromPayload_long (by simp),blockNumber_be]
  · intro blockSize packet packet' payload' hd hd' hl'
    obtain ⟨call,hc,hb⟩ := storageCall_block hd hl
    obtain ⟨call',hc',hb'⟩ := storageCall_block hd' hl'
    refine ⟨call,call',hc,hc',?_,fun storage fs garbage => ⟨?_,?_⟩⟩
    · rw [hb,hb',blockNumber_inj hl hl']
    · exact packetReceived_storageCall hd hc storage fs garbage
    · exact packetReceived_storageCall hd' hc' storage fs garbage

/-- Block 258, read in one request and asked for in another with more behind it. -/
theorem block_258_lossless :
    8 ≤ (be 8 258).length ∧
      (∃ num, extractUint64FromPayload (be 8 258) = some num ∧
        be 8 num.toNat = [0,0,0,0,0,0,1,2]) ∧
      ∃ call call',
        storageCall ⟨supportedVersion,Commands.readBlock.code,8⟩ (be 8 258) = some call ∧
        storageCall ⟨supportedVersion,Commands.isBlockAvailable.code,9⟩ [0,0,0,0,0,0,1,3,7] =
          some call' ∧ call.block ≠ call'.block := by
  have hl : 8 ≤ (be 8 258).length := by decide
  obtain ⟨⟨num,hn,_,hb⟩,_,_,hr⟩ := block_numbers_lossless hl
  obtain ⟨call,call',hc,hc',he,_⟩ := hr 4096 _ _ [0,0,0,0,0,0,1,3,7] .readBlock
    (.isBlockAvailable 9) (by decide)
  exact ⟨hl,⟨num,hn,hb⟩,call,call',hc,hc',fun h => absurd (he.mp h) (by decide)⟩

end Shepoo.Server.BlockNumbers
