import Shepoo.Foundation.ByteSource

/-! One process using one descriptor of a regular file: position, access mode and
advisory locks. The contents are looked up at each read, so others may change them. -/
namespace Shepoo.Foundation.PosixFile
open ByteSource

/-- A regular file; its length is an `off_t`. -/
structure File where
  bytes : List UInt8
  small : bytes.length < 2^63
  deriving DecidableEq, Repr

structure FileSystem where
  lookup : String → Option File
  empty_path : lookup "" = none

def noFiles : FileSystem := ⟨fun _ => none,rfl⟩

inductive AccessMode where
  | readOnly
  | readWrite
  deriving DecidableEq, Repr

structure Descriptor where
  path : String
  mode : AccessMode
  position : Nat
  deriving DecidableEq, Repr

inductive LockCommand where
  | lock
  | unlock
  deriving DecidableEq, Repr

/-- The accesses that matter to others, with the locks held while they happen. -/
inductive Event where
  | lockf (command : LockCommand) (granted : Bool) (range : Finset Nat)
  | read (start count : Nat) (held : Finset Nat)
  deriving DecidableEq

/-- `none` stands for a failed open: every later call on it fails. -/
structure Handle where
  descriptor : Option Descriptor
  held : Finset Nat
  trace : List Event
  deriving DecidableEq

namespace Handle

def idle : Handle := ⟨none,∅,[]⟩

def openFile (fs : FileSystem) (path : String) (mode : AccessMode) (h : Handle) : Handle :=
  match fs.lookup path with
  | none => { h with descriptor := none }
  | some _ => { h with descriptor := some ⟨path,mode,0⟩ }

/-- `SEEK_SET`; a negative offset is refused and leaves the position alone. -/
def lseek64 (offset : Int64) (h : Handle) : Handle :=
  match h.descriptor with
  | none => h
  | some d =>
    if offset.toInt < 0 then h
    else { h with descriptor := some { d with position := offset.toInt.toNat } }

/-- Locks start at the position. A descriptor not open for writing is refused both commands,
where some systems refuse it only a lock and let it unlock. -/
def lockf (command : LockCommand) (len : Nat) (h : Handle) : Handle :=
  match h.descriptor with
  | none => h
  | some d =>
    let range := Finset.Ico d.position (d.position+len)
    match d.mode,command with
    | .readOnly,_ => { h with trace := h.trace ++ [.lockf command false range] }
    | .readWrite,.lock =>
      { h with held := h.held ∪ range, trace := h.trace ++ [.lockf command true range] }
    | .readWrite,.unlock =>
      { h with held := h.held \ range, trace := h.trace ++ [.lockf command true range] }

def available (fs : FileSystem) (d : Descriptor) (count : Nat) : List UInt8 :=
  match fs.lookup d.path with
  | none => []
  | some file => (file.bytes.drop d.position).take count

def read (fs : FileSystem) (buffer : List UInt8) (count : Nat) (h : Handle) :
    List UInt8 × Handle :=
  match h.descriptor with
  | none => (buffer,h)
  | some d =>
    let data := available fs d count
    (fill buffer data,{ h with
      descriptor := some { d with position := d.position+data.length }
      trace := h.trace ++ [.read d.position count h.held] })

/-- Closing a descriptor of the file drops every lock of the process on it. -/
def close (h : Handle) : Handle := { h with descriptor := none, held := ∅ }

end Handle

/-- A 64-bit unsigned offset below the sign bit is itself as an `off64_t`. -/
theorem toInt_toInt64 {x : UInt64} (h : x.toNat < 2^63) : x.toInt64.toInt = x.toNat := by
  have hb : x.toInt64.toInt = x.toBitVec.toInt := rfl
  rw [hb,BitVec.toInt_eq_toNat_cond,if_pos]
  · rfl
  · change 2*x.toNat < 2^64
    omega

theorem toInt64_neg {x : UInt64} (h : 2^63 ≤ x.toNat) : x.toInt64.toInt < 0 := by
  have hb : x.toInt64.toInt = x.toBitVec.toInt := rfl
  have hlt := x.toNat_lt
  rw [hb,BitVec.toInt_eq_toNat_cond,if_neg]
  · change (x.toNat : Int) - (2^64 : Nat) < 0
    omega
  · change ¬ 2*x.toNat < 2^64
    omega

end Shepoo.Foundation.PosixFile
