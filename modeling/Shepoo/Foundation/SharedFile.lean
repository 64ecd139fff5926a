import Shepoo.Foundation.PosixFile

/-! Two processes at one file. One makes calls in a fixed order, the other one writes and
takes advisory locks as it likes; a region counts as changed only by a writer that has it
locked as a whole. -/
namespace Shepoo.Foundation.SharedFile
open ByteSource PosixFile

/-- A write inside the file; what would come to lie behind its end is left out. -/
def overwrite (start : Nat) (data bytes : List UInt8) : List UInt8 :=
  bytes.mapIdx fun i b => if i < start then b else (data[i-start]?).getD b

@[simp] theorem length_overwrite (start : Nat) (data bytes : List UInt8) :
    (overwrite start data bytes).length = bytes.length := List.length_mapIdx

theorem getElem?_overwrite (start : Nat) (data bytes : List UInt8) (i : Nat) :
    (overwrite start data bytes)[i]? =
      bytes[i]?.map fun b => if i < start then b else (data[i-start]?).getD b := by
  rw [overwrite,List.getElem?_mapIdx]

def overwriteFile (fs : FileSystem) (path : String) (start : Nat) (data : List UInt8) :
    FileSystem where
  lookup p :=
    if p = path then
      (fs.lookup p).map fun file =>
        ⟨overwrite start data file.bytes,(length_overwrite ..).trans_lt file.small⟩
    else fs.lookup p
  empty_path := by
    rw [fs.empty_path]
    split <;> rfl

inductive Call where
  | openFile (path : String) (mode : AccessMode)
  | lseek64 (offset : Int64)
  | lockf (command : LockCommand) (len : Nat)
  | read (count : Nat)
  | close
  deriving DecidableEq

structure Process where
  handle : Handle
  buffer : List UInt8

def Call.run (fs : FileSystem) (p : Process) : Call → Process
  | openFile path mode => { p with handle := Handle.openFile fs path mode p.handle }
  | lseek64 offset => { p with handle := Handle.lseek64 offset p.handle }
  | lockf command len => { p with handle := Handle.lockf command len p.handle }
  | read count =>
    let (buffer,handle) := Handle.read fs p.buffer count p.handle
    ⟨handle,buffer⟩
  | close => { p with handle := Handle.close p.handle }

structure Region where
  path : String
  start : Nat
  len : Nat

namespace Region

def range (region : Region) : Finset Nat :=
  Finset.Ico region.start (region.start+region.len)

def bytes (region : Region) (fs : FileSystem) : List UInt8 :=
  Handle.available fs ⟨region.path,.readOnly,region.start⟩ region.len

end Region

/-- Both processes. The versions are what the region has held whenever the writer did not
have all of it locked. -/
structure World where
  fs : FileSystem
  process : Process
  todo : List Call
  writerHeld : Finset Nat
  versions : List (List UInt8)

def initial (region : Region) (fs : FileSystem) (todo : List Call) (buffer : List UInt8) :
    World :=
  ⟨fs,⟨Handle.idle,buffer⟩,todo,∅,[region.bytes fs]⟩

/-- A call that asks for a lock waits for it; one that is refused does not. -/
def Grantable (call : Call) (w : World) : Prop :=
  ∀ len d, call = .lockf .lock len → w.process.handle.descriptor = some d →
    d.mode = .readWrite → Disjoint (Finset.Ico d.position (d.position+len)) w.writerHeld

inductive Step (region : Region) : World → World → Prop
  | call {w : World} {call : Call} {rest : List Call} (ht : w.todo = call::rest)
    (hg : Grantable call w) :
    Step region w { w with process := call.run w.fs w.process, todo := rest }
  /-- a lock for the writer, as far as the process has none there -/
  | acquire {w : World} (locks : Finset Nat) (h : Disjoint locks w.process.handle.held) :
    Step region w { w with writerHeld := w.writerHeld ∪ locks }
  /-- a write outside of the region, or one with the region locked -/
  | write {w : World} (start : Nat) (data : List UInt8)
    (h : region.range ⊆ w.writerHeld ∨
      Disjoint (Finset.Ico start (start+data.length)) region.range) :
    Step region w { w with fs := overwriteFile w.fs region.path start data }
  /-- the writer gives up locks; where the region is no longer all its own, its bytes count -/
  | release {w : World} (locks : Finset Nat) :
    Step region w { w with
      writerHeld := w.writerHeld \ locks
      versions := if region.range ⊆ w.writerHeld \ locks then w.versions
        else region.bytes w.fs::w.versions }

abbrev Reaches (region : Region) : World → World → Prop :=
  Relation.ReflTransGen (Step region)

variable {region : Region} {w w' : World}

/-- A write reaches each byte of the region by its own place. -/
theorem bytes_overwrite (region : Region) (fs : FileSystem) (start : Nat) (data : List UInt8) :
    region.bytes (overwriteFile fs region.path start data) =
      (region.bytes fs).mapIdx fun i b =>
        if region.start+i < start then b else (data[region.start+i-start]?).getD b := by
  unfold Region.bytes Handle.available overwriteFile
  simp only [if_true]
  cases fs.lookup region.path with
  | none => rfl
  | some file =>
    apply List.ext_getElem?
    intro i
    simp only [Option.map_some,List.getElem?_mapIdx,List.getElem?_take,List.getElem?_drop]
    split
    · rw [getElem?_overwrite]
    · rfl

theorem bytes_overwrite_one (region : Region) (fs : FileSystem) (k : Nat) (c : UInt8) :
    region.bytes (overwriteFile fs region.path (region.start+k) [c]) =
      (region.bytes fs).set k c := by
  rw [bytes_overwrite]
  apply List.ext_getElem?
  intro i
  rw [List.getElem?_mapIdx,List.getElem?_set]
  by_cases hk : k = i
  · subst hk
    cases hb : (region.bytes fs)[k]? with
    | none => simp [List.getElem?_eq_none_iff.mp hb]
    | some b => simp [(List.getElem?_eq_some_iff.mp hb).1]
  · rw [if_neg hk]
    cases (region.bytes fs)[i]? with
    | none => rfl
    | some b =>
      rw [Option.map_some,Option.some.injEq]
      split
      · rfl
      · rw [List.getElem?_eq_none (by simp only [List.length_singleton]; omega),Option.getD_none]

theorem length_bytes_le (region : Region) (fs : FileSystem) :
    (region.bytes fs).length ≤ region.len := by
  unfold Region.bytes Handle.available
  split
  · exact Nat.zero_le _
  · exact List.length_take_le _ _

/-- A write beside the region leaves its bytes alone. -/
theorem bytes_beside {fs : FileSystem} {start : Nat} {data : List UInt8}
    (h : Disjoint (Finset.Ico start (start+data.length)) region.range) :
    region.bytes (overwriteFile fs region.path start data) = region.bytes fs := by
  rw [bytes_overwrite]
  apply List.ext_getElem?
  intro i
  rw [List.getElem?_mapIdx]
  cases hb : (region.bytes fs)[i]? with
  | none => rfl
  | some b =>
    have hi := (List.getElem?_eq_some_iff.mp hb).1.trans_le (length_bytes_le region fs)
    have hm : region.start+i ∈ region.range := Finset.mem_Ico.mpr ⟨by omega,by omega⟩
    have hout := Finset.disjoint_right.mp h hm
    rw [Finset.mem_Ico] at hout
    rw [Option.map_some,Option.some.injEq]
    split
    · rfl
    · rw [List.getElem?_eq_none (by omega),Option.getD_none]

structure Guarded (region : Region) (w : World) : Prop where
  exclusive : Disjoint w.process.handle.held w.writerHeld
  current : ¬ region.range ⊆ w.writerHeld → region.bytes w.fs ∈ w.versions

theorem guarded_initial (region : Region) (fs : FileSystem) (todo : List Call)
    (buffer : List UInt8) : Guarded region (initial region fs todo buffer) :=
  ⟨Finset.disjoint_empty_right _,fun _ => List.mem_cons_self⟩

/-- A call takes no lock but one it was granted. -/
theorem run_exclusive {call : Call} (hg : Grantable call w)
    (h : Disjoint w.process.handle.held w.writerHeld) :
    Disjoint (call.run w.fs w.process).handle.held w.writerHeld := by
  cases call with
  | openFile path mode =>
    simp only [Call.run,Handle.openFile]
    split <;> exact h
  | lseek64 offset =>
    simp only [Call.run,Handle.lseek64]
    split
    · exact h
    · split <;> exact h
  | lockf command len =>
    simp only [Call.run,Handle.lockf]
    split
    · exact h
    · next d hd =>
      split
      · exact h
      · next hm =>
        exact Finset.disjoint_union_left.mpr ⟨h,hg len d rfl hd hm⟩
      · exact h.mono_left Finset.sdiff_subset
  | read count =>
    simp only [Call.run,Handle.read]
    split <;> exact h
  | close => exact Finset.disjoint_empty_left _

theorem guarded_step (h : Guarded region w) (hs : Step region w w') : Guarded region w' := by
  cases hs with
  | call ht hg => exact ⟨run_exclusive hg h.exclusive,h.current⟩
  | acquire locks hl =>
    refine ⟨Finset.disjoint_union_right.mpr ⟨h.exclusive,hl.symm⟩,fun hr => h.current ?_⟩
    exact fun hsub => hr (hsub.trans Finset.subset_union_left)
  | write start data hw =>
    refine ⟨h.exclusive,fun hr => ?_⟩
    have hcurrent := h.current hr
    rwa [← bytes_beside (hw.resolve_left hr)] at hcurrent
  | release locks =>
    refine ⟨h.exclusive.mono_right Finset.sdiff_subset,fun hr => ?_⟩
    rw [if_neg hr]
    exact List.mem_cons_self

/-- What a process finds in a region it has locked is one of the versions. -/
theorem locked_bytes (h : Guarded region w) (hne : region.range.Nonempty)
    (hl : region.range ⊆ w.process.handle.held) : region.bytes w.fs ∈ w.versions := by
  refine h.current fun hw => ?_
  obtain ⟨i,hi⟩ := hne
  exact Finset.disjoint_left.mp h.exclusive (hl hi) (hw hi)

theorem versions_step (hs : Step region w w') : w.versions ⊆ w'.versions := by
  cases hs with
  | call _ _ => exact List.Subset.refl _
  | acquire _ _ => exact List.Subset.refl _
  | write _ _ _ => exact List.Subset.refl _
  | release locks =>
    simp only
    split
    · exact List.Subset.refl _
    · exact List.subset_cons_self _ _

/-- Only a call that opens changes the access mode. -/
theorem run_readOnly {call : Call} {p : Process} (fs : FileSystem)
    (hopen : ∀ path mode, call = .openFile path mode → mode = .readOnly)
    (hd : ∀ d, p.handle.descriptor = some d → d.mode = .readOnly) :
    ∀ d, (call.run fs p).handle.descriptor = some d → d.mode = .readOnly := by
  intro d h
  cases call with
  | openFile path mode =>
    simp only [Call.run,Handle.openFile] at h
    split at h
    · cases h
    · cases h
      exact hopen path mode rfl
  | lseek64 offset =>
    simp only [Call.run,Handle.lseek64] at h
    split at h
    · exact hd d h
    · next d₀ h₀ =>
      split at h
      · exact hd d h
      · cases h
        exact hd d₀ h₀
  | lockf command len =>
    simp only [Call.run,Handle.lockf] at h
    split at h
    · exact hd d h
    · split at h
      · exact hd d h
      · exact hd d h
      · exact hd d h
  | read count =>
    simp only [Call.run,Handle.read] at h
    split at h
    · exact hd d h
    · next d₀ h₀ =>
      cases h
      exact hd d₀ h₀
  | close => cases h

/-- A process that opens files for reading only waits for no lock: all its calls can be made
in a row. -/
theorem reaches_calls (region : Region) (w : World)
    (hopen : ∀ path mode, Call.openFile path mode ∈ w.todo → mode = .readOnly)
    (hd : ∀ d, w.process.handle.descriptor = some d → d.mode = .readOnly) :
    Reaches region w { w with process := w.todo.foldl (Call.run w.fs) w.process, todo := [] } := by
  obtain ⟨fs,process,todo,writerHeld,versions⟩ := w
  simp only at hopen hd ⊢
  induction todo generalizing process with
  | nil => exact .refl
  | cons call rest ih =>
    have hg : Grantable call ⟨fs,process,call::rest,writerHeld,versions⟩ := by
      intro len d _ hsome hm
      rw [hd d hsome] at hm
      cases hm
    refine .head (.call rfl hg) (ih (call.run fs process)
      (fun path mode hm => hopen path mode (List.mem_cons_of_mem _ hm)) ?_)
    refine run_readOnly fs (fun path mode he => hopen path mode ?_) hd
    rw [he]
    exact List.mem_cons_self

/-- All calls of such a process fit in between two writes to a region that the writer has
locked. -/
theorem reaches_interrupted (hne : region.range.Nonempty) (fs : FileSystem) (calls : List Call)
    (buffer : List UInt8)
    (hopen : ∀ path mode, Call.openFile path mode ∈ calls → mode = .readOnly)
    (start start' : Nat) (data data' : List UInt8) :
    ∃ w, Reaches region (initial region fs calls buffer) w ∧ w.todo = [] ∧ w.writerHeld = ∅ ∧
      w.process = calls.foldl (Call.run (overwriteFile fs region.path start data))
        ⟨Handle.idle,buffer⟩ ∧
      w.versions = [region.bytes (overwriteFile
        (overwriteFile fs region.path start data) region.path start' data'),region.bytes fs] := by
  have hacquire : Step region (initial region fs calls buffer) _ :=
    .acquire region.range (Finset.disjoint_empty_right _)
  have hheld : region.range ⊆ ∅ ∪ region.range := Finset.subset_union_right
  have hread := reaches_calls region ⟨overwriteFile fs region.path start data,
    ⟨Handle.idle,buffer⟩,calls,∅ ∪ region.range,[region.bytes fs]⟩ hopen (fun d hd => by cases hd)
  have hfirst := Relation.ReflTransGen.head hacquire
    (.head (.write start data (.inl hheld)) hread)
  have hlast := (hfirst.tail (.write start' data' (.inl hheld))).tail (.release region.range)
  refine ⟨_,hlast,rfl,?_,rfl,?_⟩
  · rw [Finset.empty_union,Finset.sdiff_self]
  · rw [Finset.empty_union,Finset.sdiff_self,
      if_neg fun hsub => hne.ne_empty (Finset.subset_empty.mp hsub)]

end Shepoo.Foundation.SharedFile
