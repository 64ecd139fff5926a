import Shepoo.Server.Protocol

/-! Serving a file block by block. A client that asks for the whole blocks in order
gets the file, up to the incomplete block at its end. -/
namespace Shepoo.Server.BlockReading
open Foundation ByteCodec ByteSource PosixFile

private theorem blocks_flatten {α : Type} (items : List α) (n k : Nat) :
    (List.range k).flatMap (fun num => (items.drop (num*n)).take n) = items.take (k*n) := by
  induction k with
  | zero => simp
  | succ k ih =>
    rw [List.range_succ,List.flatMap_append,ih,Nat.succ_mul,List.take_add]
    simp

private theorem inside_of_lt_div {num n len : Nat} (h : num < len/n) : (num+1)*n ≤ len :=
  (Nat.mul_le_mul_right n (Nat.succ_le_of_lt h)).trans (Nat.div_mul_le_self len n)

/-- A read request for a block inside the file has exactly one answer: that block. -/
theorem packetReceived_inside (blockSize : UInt64) (fs : FileSystem) (path : String)
    (garbage : Nat → UInt8) {payload : List UInt8} {num : UInt64}
    (hn : Protocol.extractUint64FromPayload payload = some num)
    (hi : (num.toNat+1)*blockSize.toNat ≤ (contents fs path).length) :
    (Protocol.packetReceived blockSize (Blockstorage.create fs path) fs garbage
      ⟨supportedVersion,Commands.readBlock.code,8⟩ payload).1 =
        .returned [(⟨supportedVersion,Commands.blockAnswer.code,blockSize⟩,
          some (((contents fs path).drop (num.toNat*blockSize.toNat)).take blockSize.toNat))] := by
  rw [Protocol.packetReceived_readBlock _ _ _ _ hn,
    Blockstorage.getBlock_inside (Blockstorage.create_fileLength fs path) hi]
  rfl

/-- No whole block is refused, skipped or served twice: the answers to the requests
for blocks 0, 1, ... concatenate to the file's prefix of whole blocks. -/
theorem read_in_order (blockSize : UInt64) (fs : FileSystem) (path : String)
    (garbage : Nat → Nat → UInt8) :
    ∃ blocks : Nat → List UInt8,
      (∀ num < (contents fs path).length/blockSize.toNat,
        (blocks num).length = blockSize.toNat ∧
        (Protocol.packetReceived blockSize (Blockstorage.create fs path) fs (garbage num)
          ⟨supportedVersion,Commands.readBlock.code,8⟩ (be 8 num)).1 =
            .returned [(⟨supportedVersion,Commands.blockAnswer.code,blockSize⟩,
              some (blocks num))]) ∧
      (List.range ((contents fs path).length/blockSize.toNat)).flatMap blocks =
        (contents fs path).take ((contents fs path).length/blockSize.toNat*blockSize.toNat) := by
  refine ⟨fun num => ((contents fs path).drop (num*blockSize.toNat)).take blockSize.toNat,?_,
    blocks_flatten _ _ _⟩
  intro num hnum
  have hi := inside_of_lt_div hnum
  have hs := contents_small fs path
  have hlt : num < 2^64 := by
    have := hnum.trans_le (Nat.div_le_self _ _)
    omega
  have hv : (UInt64.ofNat num).toNat = num := UInt64.toNat_ofNat_of_lt' hlt
  have hx := Protocol.extractUint64FromPayload_be hlt []
  rw [List.append_nil] at hx
  constructor
  · rw [Nat.add_mul,Nat.one_mul] at hi
    rw [List.length_take,List.length_drop]
    omega
  · rw [packetReceived_inside blockSize fs path (garbage num) hx (by rw [hv]; exact hi),hv]

end Shepoo.Server.BlockReading
