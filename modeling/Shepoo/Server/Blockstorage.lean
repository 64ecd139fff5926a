import Shepoo.Foundation.PosixFile

/-! The block store of a server: one file, addressed in blocks of the compiled-in
size. The file length is a snapshot taken when the store is constructed. -/
namespace Shepoo.Server
open Foundation ByteSource PosixFile

structure Blockstorage where
  path : String
  fileLength : UInt64
  deriving DecidableEq, Repr

namespace Blockstorage

/-- The `stat` buffer is zeroed first, so a failing `stat` leaves the length zero. -/
def create (fs : FileSystem) (path : String) : Blockstorage :=
  ⟨path,match fs.lookup path with
    | none => 0
    | some file => UInt64.ofNat file.bytes.length⟩

/-- Both sides of the comparison are `uint64_t` and wrap on their own. -/
def isBlockAvailable (blockSize : UInt64) (storage : Blockstorage) (num : UInt64) : Bool :=
  num*blockSize ≤ storage.fileLength-blockSize

/-- The returned buffer, with what the calls did to the descriptor and its locks.
No result of `open`, `lseek64`, `lockf` or `read` is looked at. -/
def getBlock (blockSize : UInt64) (storage : Blockstorage) (fs : FileSystem)
    (garbage : Nat → UInt8) (num : UInt64) : Option (List UInt8) × Handle :=
  if !isBlockAvailable blockSize storage num then (none,Handle.idle)
  else
    -- `O_LARGEFILE` alone: the access mode is `O_RDONLY`
    let fd := Handle.openFile fs storage.path .readOnly Handle.idle
    let fd := Handle.lseek64 (num*blockSize).toInt64 fd
    let fd := Handle.lockf .lock blockSize.toNat fd
    let block := fresh garbage blockSize.toNat
    let (block,fd) := Handle.read fs block blockSize.toNat fd
    let fd := Handle.lseek64 (num*blockSize).toInt64 fd
    let fd := Handle.lockf .unlock blockSize.toNat fd
    (some block,Handle.close fd)

/-- The body of the source function is empty. -/
def storeBlock (fs : FileSystem) (_num : UInt64) (_data : List UInt8) : FileSystem := fs

end Blockstorage

def contents (fs : FileSystem) (path : String) : List UInt8 :=
  match fs.lookup path with
  | none => []
  | some file => file.bytes

/-- A block is a whole stretch of the contents, with offsets taken over the naturals. -/
def IsBlock (bytes : List UInt8) (blockSize num : Nat) (block : List UInt8) : Prop :=
  (num+1)*blockSize ≤ bytes.length ∧ block = (bytes.drop (num*blockSize)).take blockSize

theorem contents_small (fs : FileSystem) (path : String) :
    (contents fs path).length < 2^63 := by
  unfold contents
  split
  · simp
  · next file _ => exact file.small

namespace Blockstorage

/-- The snapshot is exact: an `off_t` length survives the change of type. -/
theorem create_fileLength (fs : FileSystem) (path : String) :
    (create fs path).fileLength.toNat = (contents fs path).length := by
  have hs := contents_small fs path
  unfold create contents at *
  cases h : fs.lookup path with
  | none => rfl
  | some file =>
    simp only [h] at hs ⊢
    rw [UInt64.toNat_ofNat']
    exact Nat.mod_eq_of_lt (hs.trans (by decide))

/-- The comparison as the code makes it, both sides reduced modulo 2^64. -/
theorem isBlockAvailable_iff (blockSize : UInt64) (storage : Blockstorage) (num : UInt64) :
    isBlockAvailable blockSize storage num = true ↔
      num.toNat*blockSize.toNat % 2^64 ≤
        (storage.fileLength.toNat + (2^64-blockSize.toNat)) % 2^64 := by
  rw [isBlockAvailable,decide_eq_true_iff,UInt64.le_iff_toNat_le,UInt64.toNat_mul,
    UInt64.toNat_sub,Nat.add_comm (2^64-blockSize.toNat)]

/-- Nothing wraps for a block that lies inside a file whose length fits an `off_t`. -/
theorem available_of_inside {blockSize num : UInt64} {storage : Blockstorage}
    (hl : storage.fileLength.toNat < 2^63)
    (h : (num.toNat+1)*blockSize.toNat ≤ storage.fileLength.toNat) :
    isBlockAvailable blockSize storage num = true := by
  rw [isBlockAvailable_iff]
  rw [Nat.add_mul,Nat.one_mul] at h
  have hb := blockSize.toNat_lt
  rw [Nat.mod_eq_of_lt (a := num.toNat*blockSize.toNat) (by omega)]
  have he : storage.fileLength.toNat + (2^64-blockSize.toNat) =
      storage.fileLength.toNat-blockSize.toNat+2^64 := by omega
  rw [he,Nat.add_mod_right,Nat.mod_eq_of_lt (by omega)]
  omega

theorem getBlock_unavailable {blockSize num : UInt64} {storage : Blockstorage}
    (h : isBlockAvailable blockSize storage num = false) (fs : FileSystem)
    (garbage : Nat → UInt8) : (getBlock blockSize storage fs garbage num).1 = none := by
  simp [getBlock,h]

theorem getBlock_isSome (blockSize : UInt64) (storage : Blockstorage) (fs : FileSystem)
    (garbage : Nat → UInt8) (num : UInt64) :
    (getBlock blockSize storage fs garbage num).1.isSome =
      isBlockAvailable blockSize storage num := by
  cases h : isBlockAvailable blockSize storage num <;> simp [getBlock,h]

/-- Where the read of a block starts: an offset whose sign bit is set is refused by the
seek, which leaves the position at the start of the file. -/
def blockPosition (blockSize num : UInt64) : Nat :=
  if (num*blockSize).toNat < 2^63 then (num*blockSize).toNat else 0

private theorem lseek64_block (blockSize num : UInt64) (d : Descriptor) (hd : d.position = 0)
    (held : Finset Nat) (trace : List Event) :
    Handle.lseek64 (num*blockSize).toInt64 ⟨some d,held,trace⟩ =
      ⟨some { d with position := blockPosition blockSize num },held,trace⟩ := by
  obtain ⟨path,mode,position⟩ := d
  subst hd
  rw [Handle.lseek64,blockPosition]
  by_cases hs : (num*blockSize).toNat < 2^63
  · have hn : ¬ ((num*blockSize).toNat : Int) < 0 := by omega
    simp only [toInt_toInt64 hs,if_neg hn,Int.toNat_natCast,if_pos hs]
  · have hn := toInt64_neg (Nat.le_of_not_lt hs)
    simp only [if_pos hn,if_neg hs]

/-- An available block is whatever the file has from that position on, over the old
contents of the buffer. -/
theorem getBlock_available {blockSize num : UInt64} {storage : Blockstorage}
    (h : isBlockAvailable blockSize storage num = true) (fs : FileSystem)
    (garbage : Nat → UInt8) :
    (getBlock blockSize storage fs garbage num).1 =
      some (fill (fresh garbage blockSize.toNat)
        (((contents fs storage.path).drop (blockPosition blockSize num)).take
          blockSize.toNat)) := by
  have hread : (getBlock blockSize storage fs garbage num).1 =
      some (Handle.read fs (fresh garbage blockSize.toNat) blockSize.toNat
        (Handle.lockf .lock blockSize.toNat (Handle.lseek64 (num*blockSize).toInt64
          (Handle.openFile fs storage.path .readOnly Handle.idle)))).1 := by
    rw [getBlock,h]
    rfl
  rw [hread]
  unfold contents Handle.openFile
  cases hf : fs.lookup storage.path with
  | none => simp [Handle.lseek64,Handle.lockf,Handle.read,fill]
  | some file =>
    have hseek := lseek64_block blockSize num ⟨storage.path,.readOnly,0⟩ rfl
      Handle.idle.held Handle.idle.trace
    simp only [hseek,Handle.lockf,Handle.read,Handle.available,hf]

theorem length_getBlock {blockSize num : UInt64} {storage : Blockstorage} {fs : FileSystem}
    {garbage : Nat → UInt8} {block : List UInt8}
    (h : (getBlock blockSize storage fs garbage num).1 = some block) :
    block.length = blockSize.toNat := by
  have ha := getBlock_isSome blockSize storage fs garbage num
  rw [h,Option.isSome_some] at ha
  rw [getBlock_available ha.symm] at h
  cases h
  rw [length_fill,length_fresh]
  rw [length_fresh]
  exact List.length_take_le _ _

/-- Nothing of the old contents is left in any buffer exactly when the file has a whole
block from that position on. -/
theorem getBlock_determined_iff (blockSize : UInt64) (storage : Blockstorage) (fs : FileSystem)
    (num : UInt64) :
    (∀ garbage garbage', (getBlock blockSize storage fs garbage num).1 =
      (getBlock blockSize storage fs garbage' num).1) ↔
    (isBlockAvailable blockSize storage num = true → blockSize = 0 ∨
      blockPosition blockSize num + blockSize.toNat ≤ (contents fs storage.path).length) := by
  cases ha : isBlockAvailable blockSize storage num with
  | false => simp [getBlock_unavailable ha]
  | true =>
    have hz : blockSize = 0 ↔ blockSize.toNat = 0 := UInt64.toNat_inj.symm
    simp only [getBlock_available ha,Option.some.injEq,fill_fresh_determined_iff,
      List.length_take,List.length_drop,forall_const,hz]
    omega

/-- Inside the file the seek is exact and the read fills the whole buffer, so the
buffer's old contents are gone. -/
theorem getBlock_inside {blockSize num : UInt64} {storage : Blockstorage} {fs : FileSystem}
    (hlen : storage.fileLength.toNat = (contents fs storage.path).length)
    (h : (num.toNat+1)*blockSize.toNat ≤ (contents fs storage.path).length)
    (garbage : Nat → UInt8) :
    (getBlock blockSize storage fs garbage num).1 =
      some (((contents fs storage.path).drop (num.toNat*blockSize.toNat)).take
        blockSize.toNat) := by
  have hs := contents_small fs storage.path
  have ha : isBlockAvailable blockSize storage num = true :=
    available_of_inside (by omega) (by omega)
  rw [Nat.succ_mul] at h
  have hp : (num*blockSize).toNat = num.toNat*blockSize.toNat := by
    rw [UInt64.toNat_mul]
    exact Nat.mod_eq_of_lt (by omega)
  have hpos : blockPosition blockSize num = num.toNat*blockSize.toNat := by
    rw [blockPosition,hp,if_pos (by omega)]
  rw [getBlock_available ha,hpos,fill_full]
  rw [length_fresh,List.length_take,List.length_drop]
  omega

end Blockstorage
end Shepoo.Server
