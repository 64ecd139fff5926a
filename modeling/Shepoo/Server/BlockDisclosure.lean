import Shepoo.Server.Protocol

/-! What a served block may contain. The availability check compares two wrapping
sums, so the exact condition for an honest answer is stated on those sums. -/
namespace Shepoo.Server.BlockDisclosure
open Foundation ByteSource PosixFile

/-- Blocks that pass the check are served, so every one of them must lie in the file. -/
private theorem available_not_inside {blockSize num : UInt64} {storage : Blockstorage}
    (fs : FileSystem) (garbage : Nat → UInt8) (bytes : List UInt8)
    (ha : storage.isBlockAvailable blockSize num = true)
    (hi : ¬ (num.toNat+1)*blockSize.toNat ≤ bytes.length) :
    ∃ block, (storage.getBlock blockSize fs garbage num).1 = some block ∧
      ¬ IsBlock bytes blockSize.toNat num.toNat block := by
  rw [← Blockstorage.getBlock_isSome blockSize storage fs garbage num] at ha
  obtain ⟨block,hb⟩ := Option.isSome_iff_exists.mp ha
  exact ⟨block,hb,fun h => hi h.1⟩

/-- A returned buffer is the requested block for every old content of the heap exactly
when the block lies in the file, or when the wrapped comparison refuses it. -/
theorem getBlock_exact_iff (blockSize : UInt64) (fs : FileSystem) (path : String)
    (num : UInt64) (garbage : Nat → UInt8) :
    (∀ block, ((Blockstorage.create fs path).getBlock blockSize fs garbage num).1 = some block →
      IsBlock (contents fs path) blockSize.toNat num.toNat block) ↔
    (num.toNat+1)*blockSize.toNat ≤ (contents fs path).length ∨
      ((contents fs path).length + (2^64-blockSize.toNat)) % 2^64 <
        num.toNat*blockSize.toNat % 2^64 := by
  have hlen := Blockstorage.create_fileLength fs path
  have hav := Blockstorage.isBlockAvailable_iff blockSize (Blockstorage.create fs path) num
  rw [hlen] at hav
  constructor
  · intro h
    by_contra hc
    rw [not_or,Nat.not_lt] at hc
    obtain ⟨block,hb,hn⟩ := available_not_inside fs garbage (contents fs path)
      (hav.mpr hc.2) hc.1
    exact hn (h block hb)
  · intro h block hb
    rcases h with hi | hw
    · rw [Blockstorage.getBlock_inside hlen hi garbage] at hb
      exact ⟨hi,(Option.some.inj hb).symm⟩
    · have hna : (Blockstorage.create fs path).isBlockAvailable blockSize num = false := by
        rw [Bool.eq_false_iff]
        intro ha
        have := hav.mp ha
        omega
      rw [Blockstorage.getBlock_unavailable hna] at hb
      cases hb

/-- A shuffle-only server has no block storage file: its empty path makes block 0
available, and heap memory is served for it. -/
theorem shuffle_server_discloses_heap :
    ¬ ∀ block, ((Blockstorage.create noFiles "").getBlock 4096 noFiles (fun _ => 0xAA) 0).1 =
      some block → IsBlock (contents noFiles "") 4096 0 block := by
  intro h
  have ha : (Blockstorage.create noFiles "").isBlockAvailable 4096 0 = true := by decide
  obtain ⟨block,hb,hn⟩ := available_not_inside noFiles (fun _ => 0xAA) (contents noFiles "")
    ha (by decide)
  exact hn (h block hb)

end Shepoo.Server.BlockDisclosure
