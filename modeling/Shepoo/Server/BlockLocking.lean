import Shepoo.Foundation.SharedFile
import Shepoo.Server.Blockstorage

/-! A block is read between two lock calls. They are made on a descriptor that is open for
reading only, so neither is granted, and a writer that keeps to its own locks is met in the
middle of its work. -/
namespace Shepoo.Server.BlockLocking
open Foundation ByteSource PosixFile SharedFile

/-- The calls of `getBlock` in their order, for any access mode. -/
def getBlockCalls (mode : AccessMode) (blockSize : UInt64) (storage : Blockstorage)
    (num : UInt64) : List Call :=
  [.openFile storage.path mode,.lseek64 (num*blockSize).toInt64,.lockf .lock blockSize.toNat,
    .read blockSize.toNat,.lseek64 (num*blockSize).toInt64,.lockf .unlock blockSize.toNat,
    .close]

def blockRegion (blockSize : UInt64) (storage : Blockstorage) (num : UInt64) : Region :=
  ⟨storage.path,num.toNat*blockSize.toNat,blockSize.toNat⟩

def started (mode : AccessMode) (blockSize : UInt64) (storage : Blockstorage) (fs : FileSystem)
    (garbage : Nat → UInt8) (num : UInt64) : World :=
  initial (blockRegion blockSize storage num) fs (getBlockCalls mode blockSize storage num)
    (fresh garbage blockSize.toNat)

/-- In every interleaving with a writer that changes the block only while it has it locked,
the buffer is in the end what the block was at some time when the writer had not. -/
def NeverMixed (mode : AccessMode) (blockSize : UInt64) (storage : Blockstorage)
    (fs : FileSystem) (num : UInt64) : Prop :=
  ∀ garbage w, Reaches (blockRegion blockSize storage num)
    (started mode blockSize storage fs garbage num) w → w.todo = [] → w.writerHeld = ∅ →
      w.process.buffer ∈ w.versions

def ReadsLocked (blockSize : UInt64) (storage : Blockstorage) (fs : FileSystem)
    (num : UInt64) : Prop :=
  ∀ garbage start count held,
    .read start count held ∈ (storage.getBlock blockSize fs garbage num).2.trace →
      held = Finset.Ico (num.toNat*blockSize.toNat) ((num.toNat+1)*blockSize.toNat)

/-- The read happens under the lock on the block and nothing else, no lock is left, and
the returned block is never a mix. -/
structure Protected (blockSize : UInt64) (storage : Blockstorage) (fs : FileSystem)
    (num : UInt64) : Prop where
  locked : ReadsLocked blockSize storage fs num
  released : ∀ garbage, (storage.getBlock blockSize fs garbage num).2.held = ∅
  whole : NeverMixed .readOnly blockSize storage fs num

variable {blockSize num : UInt64} {storage : Blockstorage} {fs : FileSystem}

/-- The source function is these calls, opened for reading only. -/
theorem getBlock_calls (h : storage.isBlockAvailable blockSize num = true)
    (garbage : Nat → UInt8) :
    storage.getBlock blockSize fs garbage num =
      (some ((getBlockCalls .readOnly blockSize storage num).foldl (Call.run fs)
        ⟨Handle.idle,fresh garbage blockSize.toNat⟩).buffer,
      ((getBlockCalls .readOnly blockSize storage num).foldl (Call.run fs)
        ⟨Handle.idle,fresh garbage blockSize.toNat⟩).handle) := by
  rw [Blockstorage.getBlock,h]
  rfl

theorem getBlock_released (garbage : Nat → UInt8) :
    (storage.getBlock blockSize fs garbage num).2.held = ∅ := by
  unfold Blockstorage.getBlock
  split <;> rfl

theorem blockRegion_bytes : (blockRegion blockSize storage num).bytes fs =
    ((contents fs storage.path).drop (num.toNat*blockSize.toNat)).take blockSize.toNat := by
  unfold Region.bytes Handle.available contents blockRegion
  cases fs.lookup storage.path with
  | none => simp
  | some file => rfl

private theorem lseek64_inside (h : num.toNat*blockSize.toNat < 2^63) (d : Descriptor)
    (held : Finset Nat) (trace : List Event) :
    Handle.lseek64 (num*blockSize).toInt64 ⟨some d,held,trace⟩ =
      ⟨some { d with position := num.toNat*blockSize.toNat },held,trace⟩ := by
  have hp : (num*blockSize).toNat = num.toNat*blockSize.toNat := by
    rw [UInt64.toNat_mul]
    exact Nat.mod_eq_of_lt (by omega)
  have hn : ¬ ((num.toNat*blockSize.toNat : Nat) : Int) < 0 := by omega
  rw [Handle.lseek64]
  simp only [toInt_toInt64 (hp.trans_lt h),hp,if_neg hn,Int.toNat_natCast]

/-- Both lock calls fail, and the read holds nothing. -/
theorem getBlock_trace {file : File} (hf : fs.lookup storage.path = some file)
    (ha : storage.isBlockAvailable blockSize num = true)
    (hs : num.toNat*blockSize.toNat < 2^63) (garbage : Nat → UInt8) :
    (storage.getBlock blockSize fs garbage num).2.trace =
      [.lockf .lock false (blockRegion blockSize storage num).range,
        .read (num.toNat*blockSize.toNat) blockSize.toNat ∅,
        .lockf .unlock false (blockRegion blockSize storage num).range] := by
  rw [Blockstorage.getBlock,ha]
  simp only [Bool.not_true,Bool.false_eq_true,if_false,Handle.openFile,hf,Handle.idle,
    lseek64_inside hs,Handle.lockf,Handle.read,Handle.close]
  rfl

private theorem size_ne_zero (hb : blockSize ≠ 0) : blockSize.toNat ≠ 0 :=
  fun he => hb (UInt64.toNat_inj.mp he)

structure Inside (blockSize : UInt64) (storage : Blockstorage) (fs : FileSystem)
    (num : UInt64) : Prop where
  length : storage.fileLength.toNat = (contents fs storage.path).length
  fits : (num.toNat+1)*blockSize.toNat ≤ (contents fs storage.path).length

section Inside
variable (h : Inside blockSize storage fs num)
include h

private theorem inside_end :
    num.toNat*blockSize.toNat+blockSize.toNat ≤ (contents fs storage.path).length := by
  have := h.fits
  rwa [Nat.succ_mul] at this

private theorem inside_offset : num.toNat*blockSize.toNat < 2^63 := by
  have := inside_end h
  have := contents_small fs storage.path
  omega

private theorem inside_available : storage.isBlockAvailable blockSize num = true :=
  Blockstorage.available_of_inside (h.length.trans_lt (contents_small fs storage.path))
    (h.fits.trans_eq h.length.symm)

theorem inside_bytes :
    ((blockRegion blockSize storage num).bytes fs).length = blockSize.toNat := by
  have := inside_end h
  rw [blockRegion_bytes,List.length_take,List.length_drop]
  omega

private theorem inside_file (hb : blockSize ≠ 0) : ∃ file, fs.lookup storage.path = some file := by
  have hz := size_ne_zero hb
  have he := inside_end h
  unfold contents at he
  cases hf : fs.lookup storage.path with
  | none =>
    rw [hf] at he
    simp only [List.length_nil] at he
    omega
  | some file => exact ⟨file,rfl⟩

theorem inside_overwrite (start : Nat) (data : List UInt8) :
    Inside blockSize storage (overwriteFile fs storage.path start data) num := by
  have hc : (contents (overwriteFile fs storage.path start data) storage.path).length =
      (contents fs storage.path).length := by
    unfold contents overwriteFile
    simp only [if_true]
    cases fs.lookup storage.path with
    | none => rfl
    | some file => exact length_overwrite start data file.bytes
  exact ⟨h.length.trans hc.symm,h.fits.trans_eq hc.symm⟩

/-- Run without interruption the calls leave the block in the buffer. -/
theorem buffer_inside (garbage : Nat → UInt8) :
    ((getBlockCalls .readOnly blockSize storage num).foldl (Call.run fs)
      ⟨Handle.idle,fresh garbage blockSize.toNat⟩).buffer =
        (blockRegion blockSize storage num).bytes fs := by
  have hb := Blockstorage.getBlock_inside h.length h.fits garbage
  rw [getBlock_calls (inside_available h),← blockRegion_bytes] at hb
  exact Option.some.inj hb

end Inside

private theorem range_nonempty (hb : blockSize ≠ 0) (storage : Blockstorage) (num : UInt64) :
    (blockRegion blockSize storage num).range.Nonempty := by
  have hz := size_ne_zero hb
  refine ⟨num.toNat*blockSize.toNat,Finset.mem_Ico.mpr ⟨le_rfl,?_⟩⟩
  change _ < num.toNat*blockSize.toNat+blockSize.toNat
  omega

/-- The block between any two writes of a writer that has it locked can be what is
returned, though it never was a version of its own. -/
theorem interrupted (h : Inside blockSize storage fs num) (hb : blockSize ≠ 0)
    (garbage : Nat → UInt8) (start start' : Nat) (data data' : List UInt8) :
    ∃ w, Reaches (blockRegion blockSize storage num)
        (started .readOnly blockSize storage fs garbage num) w ∧
      w.todo = [] ∧ w.writerHeld = ∅ ∧
      w.process.buffer = (blockRegion blockSize storage num).bytes
        (overwriteFile fs storage.path start data) ∧
      w.versions = [(blockRegion blockSize storage num).bytes
        (overwriteFile (overwriteFile fs storage.path start data) storage.path start' data'),
        (blockRegion blockSize storage num).bytes fs] := by
  have hopen : ∀ path mode, Call.openFile path mode ∈
      getBlockCalls .readOnly blockSize storage num → mode = .readOnly := by
    intro path mode hm
    simp only [getBlockCalls,List.mem_cons,Call.openFile.injEq,reduceCtorEq,List.not_mem_nil,
      or_false] at hm
    exact hm.2
  obtain ⟨w,hreach,htodo,hheld,hprocess,hversions⟩ :=
    reaches_interrupted (range_nonempty hb storage num) fs
      (getBlockCalls .readOnly blockSize storage num) (fresh garbage blockSize.toNat) hopen
      start start' data data'
  refine ⟨w,hreach,htodo,hheld,?_,hversions⟩
  rw [hprocess]
  exact buffer_inside (inside_overwrite h start data) garbage

/-- For a block with at least one byte some interleaving returns what never was a version. -/
theorem readOnly_mixed (h : Inside blockSize storage fs num) (hb : blockSize ≠ 0) :
    ¬ NeverMixed .readOnly blockSize storage fs num := by
  intro hn
  have hz := size_ne_zero hb
  have hl : 0 < ((blockRegion blockSize storage num).bytes fs).length := by
    rw [inside_bytes h]
    omega
  have hone (fs : FileSystem) (c : UInt8) : (blockRegion blockSize storage num).bytes
      (overwriteFile fs storage.path (num.toNat*blockSize.toNat+0) [c]) =
        ((blockRegion blockSize storage num).bytes fs).set 0 c :=
    bytes_overwrite_one (blockRegion blockSize storage num) fs 0 c
  obtain ⟨c,hc⟩ : ∃ c, ((blockRegion blockSize storage num).bytes fs)[0]? = some c :=
    ⟨_,List.getElem?_eq_getElem hl⟩
  obtain ⟨w,hreach,htodo,hheld,hbuffer,hversions⟩ := interrupted h hb (fun _ => 0)
    (num.toNat*blockSize.toNat+0) (num.toNat*blockSize.toNat+0) [c+1] [c]
  have hm := hn _ w hreach htodo hheld
  have hback : (((blockRegion blockSize storage num).bytes fs).set 0 (c+1)).set 0 c =
      (blockRegion blockSize storage num).bytes fs := by
    obtain ⟨_,hget⟩ := List.getElem?_eq_some_iff.mp hc
    rw [List.set_set,← hget,List.set_getElem_self]
  rw [hbuffer,hversions,hone,hone,hback,List.mem_pair,or_self] at hm
  have hfirst := congrArg (·[0]?) hm
  simp only [List.getElem?_set_self hl,hc,Option.some.injEq] at hfirst
  have hne : c+1 ≠ c := by grind
  exact hne hfirst

private theorem run_empty (fs : FileSystem) {call : Call} {p : Process} (hp : p.buffer = [])
    (hc : ∀ count, call = .read count → count = 0) : (call.run fs p).buffer = [] := by
  cases call with
  | read count =>
    obtain rfl := hc count rfl
    simp only [Call.run,Handle.read]
    split
    · exact hp
    · next d _ =>
      have hnone : Handle.available fs d 0 = [] := by
        unfold Handle.available
        split
        · rfl
        · exact List.take_zero
      rw [hnone,hp]
      rfl
  | openFile path mode => exact hp
  | lseek64 offset => exact hp
  | lockf command len => exact hp
  | close => exact hp

theorem empty_neverMixed (mode : AccessMode) (storage : Blockstorage) (fs : FileSystem)
    (num : UInt64) : NeverMixed mode 0 storage fs num := by
  rintro garbage w hreach - -
  have hinv : w.process.buffer = [] ∧ (∀ count, Call.read count ∈ w.todo → count = 0) ∧
      [] ∈ w.versions := by
    induction hreach with
    | refl =>
      refine ⟨rfl,fun count hm => ?_,?_⟩
      · simpa [started,initial,getBlockCalls] using hm
      · have hb : (blockRegion 0 storage num).bytes fs = [] :=
          List.eq_nil_of_length_eq_zero (Nat.le_zero.mp (length_bytes_le _ fs))
        rw [started,initial,hb]
        exact List.mem_cons_self
    | tail _ hs ih =>
      obtain ⟨hbuffer,hcalls,hempty⟩ := ih
      have hversion := versions_step hs hempty
      cases hs with
      | call ht hg =>
        rw [ht] at hcalls
        exact ⟨run_empty _ hbuffer fun count he => hcalls count (he ▸ List.mem_cons_self),
          fun count hm => hcalls count (List.mem_cons_of_mem _ hm),hversion⟩
      | acquire locks hl => exact ⟨hbuffer,hcalls,hversion⟩
      | write start data hw => exact ⟨hbuffer,hcalls,hversion⟩
      | release locks => exact ⟨hbuffer,hcalls,hversion⟩
  rw [hinv.1]
  exact hinv.2.2

/-- Descriptor and locks between the calls, on a descriptor open for writing as well. -/
def handleAt (blockSize : UInt64) (storage : Blockstorage) (num : UInt64) :
    Nat → Option Descriptor × Finset Nat
  | 1 => (some ⟨storage.path,.readWrite,0⟩,∅)
  | 2 => (some ⟨storage.path,.readWrite,num.toNat*blockSize.toNat⟩,∅)
  | 3 => (some ⟨storage.path,.readWrite,num.toNat*blockSize.toNat⟩,
      (blockRegion blockSize storage num).range)
  | 4 => (some ⟨storage.path,.readWrite,num.toNat*blockSize.toNat+blockSize.toNat⟩,
      (blockRegion blockSize storage num).range)
  | 5 => (some ⟨storage.path,.readWrite,num.toNat*blockSize.toNat⟩,
      (blockRegion blockSize storage num).range)
  | 6 => (some ⟨storage.path,.readWrite,num.toNat*blockSize.toNat⟩,∅)
  | _ => (none,∅)

structure Outline (blockSize : UInt64) (storage : Blockstorage) (num : UInt64) (k : Nat)
    (w : World) : Prop where
  todo : w.todo = (getBlockCalls .readWrite blockSize storage num).drop k
  handle : (w.process.handle.descriptor,w.process.handle.held) = handleAt blockSize storage num k
  buffer : w.process.buffer.length = blockSize.toNat
  found : 4 ≤ k → w.process.buffer ∈ w.versions
  inside : Inside blockSize storage w.fs num
  guarded : Guarded (blockRegion blockSize storage num) w

private theorem run_handle (hb : blockSize ≠ 0) (h : Inside blockSize storage fs num) {k : Nat}
    {call : Call} (hc : (getBlockCalls .readWrite blockSize storage num)[k]? = some call)
    {p : Process}
    (hp : (p.handle.descriptor,p.handle.held) = handleAt blockSize storage num k) :
    ((call.run fs p).handle.descriptor,(call.run fs p).handle.held) =
      handleAt blockSize storage num (k+1) := by
  obtain ⟨file,hf⟩ := inside_file h hb
  have hs := inside_offset h
  obtain ⟨⟨d,held,trace⟩,buffer⟩ := p
  match k with
  | 0 =>
    cases hc
    cases hp
    simp only [Call.run,Handle.openFile,hf]
    rfl
  | 1 =>
    cases hc
    cases hp
    simp only [Call.run,lseek64_inside hs]
    rfl
  | 2 =>
    cases hc
    cases hp
    simp only [Call.run,Handle.lockf]
    exact congrArg (Prod.mk _) (Finset.empty_union _)
  | 3 =>
    cases hc
    cases hp
    have hl : (Handle.available fs ⟨storage.path,.readWrite,num.toNat*blockSize.toNat⟩
        blockSize.toNat).length = blockSize.toNat := inside_bytes h
    simp only [Call.run,Handle.read,hl]
    rfl
  | 4 =>
    cases hc
    cases hp
    simp only [Call.run,lseek64_inside hs]
    rfl
  | 5 =>
    cases hc
    cases hp
    simp only [Call.run,Handle.lockf]
    exact congrArg (Prod.mk _) (Finset.sdiff_self _)
  | 6 =>
    cases hc
    cases hp
    rfl
  | k+7 => cases hc

/-- The buffer is filled by the fourth call and by no other. -/
private theorem run_buffer (h : Inside blockSize storage fs num) {k : Nat} {call : Call}
    (hc : (getBlockCalls .readWrite blockSize storage num)[k]? = some call) {p : Process}
    (hp : (p.handle.descriptor,p.handle.held) = handleAt blockSize storage num k)
    (hl : p.buffer.length = blockSize.toNat) :
    (call.run fs p).buffer =
      if k = 3 then (blockRegion blockSize storage num).bytes fs else p.buffer := by
  obtain ⟨⟨d,held,trace⟩,buffer⟩ := p
  match k with
  | 0 => cases hc; rfl
  | 1 => cases hc; rfl
  | 2 => cases hc; rfl
  | 3 =>
    cases hc
    cases hp
    exact fill_full (hl.trans (inside_bytes h).symm)
  | 4 => cases hc; rfl
  | 5 => cases hc; rfl
  | 6 => cases hc; rfl
  | k+7 => cases hc

private theorem outline_call (hb : blockSize ≠ 0) {k : Nat} {w : World} {call : Call}
    {rest : List Call} (h : Outline blockSize storage num k w) (ht : w.todo = call::rest)
    (hg : Guarded (blockRegion blockSize storage num)
      { w with process := call.run w.fs w.process, todo := rest }) :
    Outline blockSize storage num (k+1)
      { w with process := call.run w.fs w.process, todo := rest } := by
  have hdrop := h.todo.symm.trans ht
  have hc : (getBlockCalls .readWrite blockSize storage num)[k]? = some call := by
    have := congrArg (·[0]?) hdrop
    simpa only [List.getElem?_drop,Nat.add_zero,List.getElem?_cons_zero] using this
  have hrest : rest = (getBlockCalls .readWrite blockSize storage num).drop (k+1) := by
    rw [← List.tail_drop,hdrop,List.tail_cons]
  have hbuffer := run_buffer h.inside hc h.handle h.buffer
  have hbytes := inside_bytes h.inside
  refine ⟨hrest,run_handle hb h.inside hc h.handle,?_,fun hk => ?_,h.inside,hg⟩
  · rw [hbuffer]
    split
    · exact hbytes
    · exact h.buffer
  · simp only [hbuffer]
    split
    · next h3 =>
      subst h3
      have hheld : w.process.handle.held = _ := congrArg Prod.snd h.handle
      exact locked_bytes h.guarded (range_nonempty hb storage num) hheld.symm.subset
    · exact h.found (by omega)

theorem outline_reaches (hb : blockSize ≠ 0) (h : Inside blockSize storage fs num)
    {garbage : Nat → UInt8} {w : World}
    (hr : Reaches (blockRegion blockSize storage num)
      (started .readWrite blockSize storage fs garbage num) w) :
    ∃ k, Outline blockSize storage num k w := by
  induction hr with
  | refl =>
    exact ⟨0,rfl,rfl,length_fresh _ _,fun hk => absurd hk (by omega),h,
      guarded_initial _ _ _ _⟩
  | tail _ hs ih =>
    obtain ⟨k,ho⟩ := ih
    have hg := guarded_step ho.guarded hs
    have hv := versions_step hs
    cases hs with
    | call ht _ => exact ⟨k+1,outline_call hb ho ht hg⟩
    | acquire locks hl =>
      exact ⟨k,ho.todo,ho.handle,ho.buffer,ho.found,ho.inside,hg⟩
    | write start data hw =>
      exact ⟨k,ho.todo,ho.handle,ho.buffer,ho.found,inside_overwrite ho.inside start data,hg⟩
    | release locks =>
      exact ⟨k,ho.todo,ho.handle,ho.buffer,fun hk => hv (ho.found hk),ho.inside,hg⟩

theorem readWrite_neverMixed (h : Inside blockSize storage fs num) :
    NeverMixed .readWrite blockSize storage fs num := by
  by_cases hb : blockSize = 0
  · subst hb
    exact empty_neverMixed .readWrite storage fs num
  · rintro garbage w hr htodo -
    obtain ⟨k,ho⟩ := outline_reaches hb h hr
    have hdrop := ho.todo.symm.trans htodo
    rw [List.drop_eq_nil_iff] at hdrop
    have hk : 7 ≤ k := hdrop
    exact ho.found (by omega)

/-- On a descriptor open for writing as well the same calls do protect the block. -/
theorem readWrite_protects (h : Inside blockSize storage fs num) {file : File}
    (hf : fs.lookup storage.path = some file) (garbage : Nat → UInt8) :
    ((getBlockCalls .readWrite blockSize storage num).foldl (Call.run fs)
      ⟨Handle.idle,fresh garbage blockSize.toNat⟩).handle =
        ⟨none,∅,[.lockf .lock true (blockRegion blockSize storage num).range,
          .read (num.toNat*blockSize.toNat) blockSize.toNat
            (blockRegion blockSize storage num).range,
          .lockf .unlock true (blockRegion blockSize storage num).range]⟩ ∧
    NeverMixed .readWrite blockSize storage fs num := by
  refine ⟨?_,readWrite_neverMixed h⟩
  simp only [getBlockCalls,List.foldl_cons,List.foldl_nil,Call.run,Handle.openFile,hf,
    Handle.idle,lseek64_inside (inside_offset h),Handle.lockf,Handle.read,Handle.close,
    Finset.empty_union]
  rfl

/-- No read of the source function has any lock. -/
private theorem read_unlocked (h : Inside blockSize storage fs num) {garbage : Nat → UInt8}
    {start count : Nat} {held : Finset Nat}
    (hm : .read start count held ∈ (storage.getBlock blockSize fs garbage num).2.trace) :
    held = ∅ := by
  cases hf : fs.lookup storage.path with
  | none =>
    have ht : (storage.getBlock blockSize fs garbage num).2.trace = [] := by
      rw [Blockstorage.getBlock,inside_available h]
      simp [Handle.openFile,hf,Handle.idle,Handle.lseek64,Handle.lockf,Handle.read,Handle.close]
    rw [ht] at hm
    cases hm
  | some file =>
    rw [getBlock_trace hf (inside_available h) (inside_offset h)] at hm
    simp only [List.mem_cons,reduceCtorEq,Event.read.injEq,List.not_mem_nil,or_false,
      false_or] at hm
    exact hm.2.2

theorem readsLocked_iff (h : Inside blockSize storage fs num) :
    ReadsLocked blockSize storage fs num ↔ blockSize = 0 := by
  constructor
  · intro hl
    by_contra hb
    obtain ⟨file,hf⟩ := inside_file h hb
    have ht := getBlock_trace hf (inside_available h) (inside_offset h) fun _ => 0
    have hheld := hl (fun _ => 0) (num.toNat*blockSize.toNat) blockSize.toNat ∅
      (by rw [ht]; simp)
    rw [Nat.succ_mul] at hheld
    exact (range_nonempty hb storage num).ne_empty hheld.symm
  · rintro rfl garbage start count held hm
    rw [read_unlocked h hm]
    exact (Finset.Ico_self _).symm

theorem neverMixed_iff (h : Inside blockSize storage fs num) :
    NeverMixed .readOnly blockSize storage fs num ↔ blockSize = 0 := by
  constructor
  · intro hn
    by_contra hb
    exact readOnly_mixed h hb hn
  · rintro rfl
    exact empty_neverMixed .readOnly storage fs num

/-- A block of at least one byte is not protected: it is read without a lock, and can be a
mix. -/
theorem getBlock_protected_iff {path : String}
    (h : (num.toNat+1)*blockSize.toNat ≤ (contents fs path).length) :
    (Protected blockSize (Blockstorage.create fs path) fs num ↔ blockSize = 0) ∧
    (ReadsLocked blockSize (Blockstorage.create fs path) fs num ↔ blockSize = 0) ∧
    (NeverMixed .readOnly blockSize (Blockstorage.create fs path) fs num ↔ blockSize = 0) := by
  have hin : Inside blockSize (Blockstorage.create fs path) fs num :=
    ⟨Blockstorage.create_fileLength fs path,h⟩
  refine ⟨?_,readsLocked_iff hin,neverMixed_iff hin⟩
  constructor
  · intro hp
    exact (readsLocked_iff hin).mp hp.locked
  · intro hb
    exact ⟨(readsLocked_iff hin).mpr hb,getBlock_released,(neverMixed_iff hin).mpr hb⟩

def twoBytes : FileSystem where
  lookup path := if path = "storage" then some ⟨[1,2],by decide⟩ else none
  empty_path := rfl

theorem twoBytes_unprotected :
    ((0 : UInt64).toNat+1)*(2 : UInt64).toNat ≤ (contents twoBytes "storage").length ∧
      ¬ Protected 2 (Blockstorage.create twoBytes "storage") twoBytes 0 :=
  have h : ((0 : UInt64).toNat+1)*(2 : UInt64).toNat ≤ (contents twoBytes "storage").length := by
    decide
  ⟨h,fun hp => absurd ((getBlock_protected_iff h).1.mp hp) (by decide)⟩

/-- The writer replaces 1,2 by 3,4 under its lock, and 3,2 is returned. -/
theorem twoBytes_mix :
    ¬ Protected 2 (Blockstorage.create twoBytes "storage") twoBytes 0 := by
  intro hp
  have hin : Inside 2 (Blockstorage.create twoBytes "storage") twoBytes 0 :=
    ⟨rfl,by decide⟩
  obtain ⟨w,hreach,htodo,hheld,hbuffer,hversions⟩ :=
    interrupted hin (by decide) (fun _ => 0) 0 1 [3] [4]
  have hold : w.process.buffer = [3,2] := hbuffer
  have hnew : w.versions = [[3,4],[1,2]] := hversions
  have hm := hp.whole _ w hreach htodo hheld
  rw [hold,hnew] at hm
  exact absurd hm (by decide)

end Shepoo.Server.BlockLocking
