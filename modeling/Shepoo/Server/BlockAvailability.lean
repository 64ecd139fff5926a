import Shepoo.Server.Protocol

/-! What the availability check says about a block. Product and difference wrap on their
own; where neither does, and by luck elsewhere, the answer is the truth. -/
namespace Shepoo.Server.BlockAvailability
open Foundation ByteCodec PosixFile

/-- The check, and the answer to a request for it, tell whether the block lies wholly
inside the file. -/
structure Truthful (blockSize : UInt64) (fs : FileSystem) (path : String) (num : UInt64) :
    Prop where
  check : (Blockstorage.create fs path).isBlockAvailable blockSize num = true ↔
    (num.toNat+1)*blockSize.toNat ≤ (contents fs path).length
  answer : ∀ (garbage : Nat → UInt8) (payload : List UInt8), payload.length = 8 →
    Protocol.extractUint64FromPayload payload = some num →
    (Protocol.packetReceived blockSize (Blockstorage.create fs path) fs garbage
      ⟨supportedVersion,Commands.isBlockAvailable.code,8⟩ payload).1 =
        .returned [(⟨supportedVersion,
          (if (num.toNat+1)*blockSize.toNat ≤ (contents fs path).length then Commands.ok
            else Commands.nok).code,0⟩,none)]

variable {blockSize num : UInt64} {fs : FileSystem} {path : String}

/-- The answer goes by the check and nothing else. -/
private theorem truthful_of_check
    (h : (Blockstorage.create fs path).isBlockAvailable blockSize num = true ↔
      (num.toNat+1)*blockSize.toNat ≤ (contents fs path).length) :
    Truthful blockSize fs path num := by
  refine ⟨h,fun garbage payload _ hn => ?_⟩
  rw [Protocol.packetReceived_isBlockAvailable _ _ _ _ _ hn]
  by_cases hi : (num.toNat+1)*blockSize.toNat ≤ (contents fs path).length
  · rw [if_pos hi,if_pos (h.mpr hi)]
  · rw [if_neg hi,if_neg (fun ha => hi (h.mp ha))]

/-- Over naturals p the offset, b the block size and l the length. -/
private theorem wrapped_check_iff {p b l : Nat} (hb : b < 2^64) (hl : l < 2^63) :
    ((p%2^64 ≤ (l + (2^64-b))%2^64) ↔ p+b ≤ l) ↔
      (b ≤ l ∧ (p < 2^64 ∨ l-b < p%2^64)) ∨ (l < b ∧ 2^64 < p%2^64 + (b-l)) := by
  by_cases h : b ≤ l
  · have hd : (l + (2^64-b))%2^64 = l-b := by omega
    rw [hd]
    omega
  · have hd : (l + (2^64-b))%2^64 = l + (2^64-b) := by omega
    rw [hd]
    omega

/-- The check is right exactly when neither side wraps, or the side that does still ends
up above the other one. -/
theorem truthful_iff (blockSize : UInt64) (fs : FileSystem) (path : String) (num : UInt64) :
    Truthful blockSize fs path num ↔
      (blockSize.toNat ≤ (contents fs path).length ∧
        (num.toNat*blockSize.toNat < 2^64 ∨
          (contents fs path).length-blockSize.toNat < num.toNat*blockSize.toNat%2^64)) ∨
      ((contents fs path).length < blockSize.toNat ∧
        2^64 < num.toNat*blockSize.toNat%2^64 +
          (blockSize.toNat-(contents fs path).length)) := by
  rw [← wrapped_check_iff blockSize.toNat_lt (contents_small fs path),
    ← Blockstorage.create_fileLength,← Blockstorage.isBlockAvailable_iff,← Nat.succ_mul]
  constructor
  · intro h
    rw [Blockstorage.create_fileLength]
    exact h.check
  · intro h
    rw [Blockstorage.create_fileLength] at h
    exact truthful_of_check h

/-- Without a file the difference wraps, and block 0 is reported available. -/
theorem missing_file_not_truthful : ¬ Truthful 4096 noFiles "" 0 := by
  intro h
  exact absurd (h.check.mp (by decide)) (by decide)

end Shepoo.Server.BlockAvailability
