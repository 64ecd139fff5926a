import Shepoo.Foundation.CellArray
import Shepoo.Server.BlockReading

/-! Runs of requests, each handled in a process of its own. The processes inherit the
length snapshot and share only the file; the abstract store is an array of blocks. -/
namespace Shepoo.Server.WriteRuns
open Foundation ByteCodec ByteSource PosixFile CellArray

/-- A received packet. The buffer holds the announced payload, perhaps more. -/
structure Request where
  packet : Packet
  payload : List UInt8
  covers : packet.payloadLength.toNat ≤ payload.length
  garbage : Nat → UInt8

def Request.write? (blockSize : UInt64) (r : Request) : Option (UInt64 × List UInt8) :=
  if r.packet = ⟨supportedVersion,Commands.writeBlock.code,8+blockSize⟩ then
    (Protocol.extractUint64FromPayload r.payload).map
      fun num => (num,(r.payload.drop 8).take blockSize.toNat)
  else none

def Request.Reads (r : Request) (num : UInt64) : Prop :=
  r.packet = ⟨supportedVersion,Commands.readBlock.code,8⟩ ∧
    Protocol.extractUint64FromPayload r.payload = some num

/-- Requests in the order their processes reach the dispatcher, with their outcomes. -/
def run (blockSize : UInt64) (storage : Blockstorage) :
    FileSystem → List Request → List (Request × Dispatch)
  | _, [] => []
  | fs, r::rest =>
    let (dispatch,fs') :=
      Protocol.packetReceived blockSize storage fs r.garbage r.packet r.payload
    (r,dispatch)::run blockSize storage fs' rest

def okAnswer : Dispatch := .returned [(⟨supportedVersion,Commands.ok.code,0⟩,none)]

def blockAnswer (blockSize : UInt64) (data : List UInt8) : Dispatch :=
  .returned [(⟨supportedVersion,Commands.blockAnswer.code,blockSize⟩,some data)]

/-- What an exchange means to the client: only an acknowledged write changes a block. -/
def access (blockSize : UInt64) (exchange : Request × Dispatch) :
    Access UInt64 (List UInt8) :=
  match exchange.1.write? blockSize with
  | some (num,data) => if exchange.2 = okAnswer then .write num data else .other
  | none => .other

/-- The blocks of the file as cells of the abstract store. -/
def blocks (blockSize : UInt64) (fs : FileSystem) (path : String) (num : UInt64) : List UInt8 :=
  ((contents fs path).drop (num.toNat*blockSize.toNat)).take blockSize.toNat

def InRange (blockSize : UInt64) (fs : FileSystem) (path : String) (num : UInt64) : Prop :=
  (num.toNat+1)*blockSize.toNat ≤ (contents fs path).length

instance (blockSize : UInt64) (fs : FileSystem) (path : String) (num : UInt64) :
    Decidable (InRange blockSize fs path num) :=
  inferInstanceAs (Decidable (_ ≤ _))

structure ReadYourWrites (blockSize : UInt64) (fs : FileSystem) (path : String)
    (history : List (Request × Dispatch)) : Prop where
  written : ∀ pre w mid r post num data, history = pre ++ w::(mid ++ r::post) →
    InRange blockSize fs path num → access blockSize w = .write num data →
    (∀ other, Access.write num other ∉ mid.map (access blockSize)) →
    r.1.Reads num → r.2 = blockAnswer blockSize data
  untouched : ∀ pre r post num, history = pre ++ r::post →
    InRange blockSize fs path num →
    (∀ other, Access.write num other ∉ pre.map (access blockSize)) →
    r.1.Reads num → r.2 = blockAnswer blockSize (blocks blockSize fs path num)

def Rewrites (blockSize : UInt64) (fs : FileSystem) (path : String) (r : Request) : Prop :=
  ∀ num data, r.write? blockSize = some (num,data) → InRange blockSize fs path num →
    data = blocks blockSize fs path num

variable {blockSize : UInt64} {fs : FileSystem} {path : String}

theorem run_eq_map (storage : Blockstorage) (fs : FileSystem) (requests : List Request) :
    run blockSize storage fs requests = requests.map fun r =>
      (r,(Protocol.packetReceived blockSize storage fs r.garbage r.packet r.payload).1) := by
  induction requests with
  | nil => rfl
  | cons r rest ih =>
    rw [run,List.map_cons,← ih]
    simp only [Protocol.packetReceived_fs]

/-- A well-formed write is acknowledged, whatever its block number. -/
private theorem dispatch_write {r : Request} {num : UInt64} {data : List UInt8}
    (h : r.write? blockSize = some (num,data)) (storage : Blockstorage) :
    (Protocol.packetReceived blockSize storage fs r.garbage r.packet r.payload).1 = okAnswer := by
  unfold Request.write? at h
  split at h
  · next hp =>
    obtain ⟨n,hn,_⟩ := Option.map_eq_some_iff.mp h
    rw [hp,Protocol.packetReceived_writeBlock _ _ _ _ hn]
    rfl
  · cases h

private theorem dispatch_read {r : Request} {num : UInt64} (hr : r.Reads num)
    (hi : InRange blockSize fs path num) :
    (Protocol.packetReceived blockSize (Blockstorage.create fs path) fs r.garbage
      r.packet r.payload).1 = blockAnswer blockSize (blocks blockSize fs path num) := by
  rw [hr.1]
  exact BlockReading.packetReceived_inside blockSize fs path r.garbage hr.2 hi

private theorem access_write {e : Request × Dispatch} {num : UInt64} {data : List UInt8}
    (h : access blockSize e = .write num data) : e.1.write? blockSize = some (num,data) := by
  unfold access at h
  split at h
  · next n d heq =>
    split at h
    · cases h; exact heq
    · cases h
  · cases h

/-- Against the abstract store: if every write rewrites its block, a read is answered
with what the cell holds after all acknowledged writes before it. -/
theorem reads_refine_store (requests : List Request)
    (hw : ∀ r ∈ requests, Rewrites blockSize fs path r)
    {pre post : List (Request × Dispatch)} {r : Request × Dispatch} {num : UInt64}
    (hs : run blockSize (Blockstorage.create fs path) fs requests = pre ++ r::post)
    (hi : InRange blockSize fs path num) (hr : r.1.Reads num) :
    r.2 = blockAnswer blockSize
      (after (blocks blockSize fs path) (pre.map (access blockSize)) num) := by
  rw [run_eq_map] at hs
  have hcell : after (blocks blockSize fs path) (pre.map (access blockSize)) num =
      blocks blockSize fs path num := by
    apply after_rewrites
    intro data hd
    obtain ⟨e,he,ha⟩ := List.mem_map.mp hd
    have hm : e ∈ requests.map fun r => (r,(Protocol.packetReceived blockSize
        (Blockstorage.create fs path) fs r.garbage r.packet r.payload).1) := by
      rw [hs]
      exact List.mem_append_left _ he
    obtain ⟨q,hq,rfl⟩ := List.mem_map.mp hm
    exact hw q hq num data (access_write ha) hi
  have hm : r ∈ requests.map fun r => (r,(Protocol.packetReceived blockSize
      (Blockstorage.create fs path) fs r.garbage r.packet r.payload).1) := by
    rw [hs]
    exact List.mem_append_right _ List.mem_cons_self
  obtain ⟨q,_,rfl⟩ := List.mem_map.mp hm
  rw [hcell]
  exact dispatch_read hr hi

def readRequest (num : UInt64) : Request where
  packet := ⟨supportedVersion,Commands.readBlock.code,8⟩
  payload := be 8 num.toNat
  covers := by rw [length_be]; rfl
  garbage := fun _ => 0

theorem readRequest_reads (num : UInt64) : (readRequest num).Reads num := by
  refine ⟨rfl,?_⟩
  have h := Protocol.extractUint64FromPayload_be num.toNat_lt []
  rwa [List.append_nil,UInt64.ofNat_toNat] at h

/-- A write that changes an in-range block is acknowledged and then lost: the next
read of the block shows it. -/
private theorem lost_write {r : Request} (hw : ¬ Rewrites blockSize fs path r)
    (requests : List Request) : ∃ num,
    ¬ ReadYourWrites blockSize fs path (run blockSize (Blockstorage.create fs path) fs
      (requests ++ [r,readRequest num])) := by
  simp only [Rewrites,not_forall] at hw
  obtain ⟨num,data,hd,hi,hne⟩ := hw
  refine ⟨num,fun law => hne ?_⟩
  have hx := law.written
    (run blockSize (Blockstorage.create fs path) fs requests)
    (r,(Protocol.packetReceived blockSize (Blockstorage.create fs path) fs r.garbage
      r.packet r.payload).1) []
    (readRequest num,(Protocol.packetReceived blockSize (Blockstorage.create fs path) fs
      (readRequest num).garbage (readRequest num).packet (readRequest num).payload).1) []
    num data (by simp only [run_eq_map,List.map_append]; rfl) hi
    (by simp only [access,hd,dispatch_write hd,if_true]) (by simp) (readRequest_reads num)
  rw [dispatch_read (readRequest_reads num) hi] at hx
  simpa [blockAnswer] using hx.symm

/-- Acknowledged writes are kept in every run whose writes to in-range blocks bring
what the block holds already. Any other write to such a block breaks the law at the
next read of it, after whatever requests came before. -/
theorem acknowledged_writes_kept (blockSize : UInt64) (fs : FileSystem) (path : String) :
    (∀ requests, (∀ r ∈ requests, Rewrites blockSize fs path r) →
      ReadYourWrites blockSize fs path
        (run blockSize (Blockstorage.create fs path) fs requests)) ∧
    ∀ requests r, ¬ Rewrites blockSize fs path r → ∃ num,
      ¬ ReadYourWrites blockSize fs path (run blockSize (Blockstorage.create fs path) fs
        (requests ++ [r,readRequest num])) := by
  refine ⟨fun requests hw => ⟨?_,?_⟩,fun requests r hr => lost_write hr requests⟩
  · intro pre w mid r post num data hs hi ha hmid hr
    have hs' : run blockSize (Blockstorage.create fs path) fs requests =
        (pre ++ w::mid) ++ r::post := by
      rw [hs,List.append_assoc,List.cons_append]
    rw [reads_refine_store requests hw hs' hi hr,List.map_append,List.map_cons,ha,
      after_last_write hmid]
  · intro pre r post num hs hi hpre hr
    rw [reads_refine_store requests hw hs hi hr,after_untouched hpre]

def zeroBlock : FileSystem where
  lookup path := if path = "/store" then some ⟨[0,0,0,0],by decide⟩ else none
  empty_path := rfl

def onesRequest : Request where
  packet := ⟨supportedVersion,Commands.writeBlock.code,12⟩
  payload := be 8 0 ++ [1,1,1,1]
  covers := by decide
  garbage := fun _ => 0

theorem acknowledged_write_lost :
    ¬ ReadYourWrites 4 zeroBlock "/store"
      (run 4 (Blockstorage.create zeroBlock "/store") zeroBlock [onesRequest,readRequest 0]) := by
  intro law
  have h := law.written [] (onesRequest,okAnswer) []
    (readRequest 0,blockAnswer 4 [0,0,0,0]) [] 0 [1,1,1,1]
    rfl (by decide) rfl (by simp) (readRequest_reads 0)
  exact absurd h (by decide)

end Shepoo.Server.WriteRuns
