import Shepoo.Server.ProcessDescriptors

/-! What the files show of themselves. A connection looks at the one block it is asked for,
and whatever else the storage holds makes no difference to any run. -/
namespace Shepoo.Server
open Foundation ByteSource PosixFile

def blockWindow (blockSize num : UInt64) (bytes : List UInt8) : List UInt8 :=
  (bytes.drop (Blockstorage.blockPosition blockSize num)).take blockSize.toNat

/-- The block an emission makes the handler read. -/
def Outcome.requested : Outcome → Option UInt64
  | .emit packet payload =>
    if packet = ⟨supportedVersion,Commands.readBlock.code,8⟩ then
      Protocol.extractUint64FromPayload payload
    else none
  | _ => none

section Handler
variable {blockSize : UInt64} {storage : Blockstorage} {fs fs' : FileSystem}

theorem getBlock_window {num : UInt64}
    (h : blockWindow blockSize num (contents fs storage.path) =
      blockWindow blockSize num (contents fs' storage.path)) (garbage : Nat → UInt8) :
    (storage.getBlock blockSize fs garbage num).1 =
      (storage.getBlock blockSize fs' garbage num).1 := by
  cases ha : storage.isBlockAvailable blockSize num with
  | false => rw [Blockstorage.getBlock_unavailable ha,Blockstorage.getBlock_unavailable ha]
  | true =>
    rw [Blockstorage.getBlock_available ha,Blockstorage.getBlock_available ha]
    exact congrArg (fun bytes => some (fill _ bytes)) h

/-- The handlers look at the first eight bytes of the payload, and at the block that is read. -/
theorem packetReceived_congr {packet : Packet} {payload payload' : List UInt8}
    {garbage : Nat → UInt8} (hn : Protocol.extractUint64FromPayload payload =
      Protocol.extractUint64FromPayload payload')
    (hb : ∀ num, (Outcome.emit packet payload).requested = some num →
      (storage.getBlock blockSize fs garbage num).1 =
        (storage.getBlock blockSize fs' garbage num).1) :
    (Protocol.packetReceived blockSize storage fs garbage packet payload).1 =
      (Protocol.packetReceived blockSize storage fs' garbage packet payload').1 := by
  by_cases hd : Protocol.Decodes blockSize packet
  · cases hnum : Protocol.extractUint64FromPayload payload with
    | none =>
      have hshort : ∀ {bytes}, Protocol.extractUint64FromPayload bytes = none →
          bytes.length < 8 := by
        intro bytes hnone
        by_contra hl
        rw [Protocol.extractUint64FromPayload_long (Nat.not_lt.mp hl)] at hnone
        cases hnone
      rw [Protocol.packetReceived_pastPayload hd storage fs garbage (hshort hnum),
        Protocol.packetReceived_pastPayload hd storage fs' garbage (hshort (hn ▸ hnum))]
    | some num =>
      have hnum' := hn.symm.trans hnum
      cases hd with
      | readBlock =>
        rw [Protocol.packetReceived_readBlock _ _ _ _ hnum,
          Protocol.packetReceived_readBlock _ _ _ _ hnum',hb num hnum]
      | writeBlock =>
        rw [Protocol.packetReceived_writeBlock _ _ _ _ hnum,
          Protocol.packetReceived_writeBlock _ _ _ _ hnum']
      | isBlockAvailable n =>
        rw [Protocol.packetReceived_isBlockAvailable _ _ _ _ n hnum,
          Protocol.packetReceived_isBlockAvailable _ _ _ _ n hnum']
  · obtain ⟨dispatch,-,hall⟩ := Protocol.packetReceived_undecoded hd
    rw [hall storage fs garbage payload,hall storage fs' garbage payload']

end Handler

namespace ListenLoop
variable {σ : Type}

def State.mapFiles (f : FileSystem → FileSystem) (w : State σ) : State σ :=
  { w with past := w.past.map f, fs := f w.fs }

section Run
variable [Source σ] {server : Listener} {f : FileSystem → FileSystem} {w w' : State σ}

/-- No client asks for a block in which the files are changed. -/
def Unasked (server : Listener) (f : FileSystem → FileSystem)
    (connections : List (Connection σ)) : Prop :=
  ∀ client ∈ connections, ∀ memory fuel num,
    (SecNet.construct server.digest memory fuel client.ssl).outcome.requested = some num →
      ∀ fs, blockWindow server.blockSize num (contents (f fs) server.storage.path) =
        blockWindow server.blockSize num (contents fs server.storage.path)

/-- What a child is about to dispatch, its own client has sent. -/
def Emitted (server : Listener) (w : State σ) : Prop :=
  ∀ c ∈ w.children, ∀ memory webSocket packet payload,
    c.stage = .dispatching memory webSocket packet payload →
      ∃ client ∈ w.connections, ∃ fuel,
        (SecNet.construct server.digest memory fuel client.ssl).outcome = .emit packet payload

theorem connections_step (hs : Step server w w') : w.connections <+: w'.connections := by
  cases hs with
  | accept ssl hp => exact List.prefix_append _ _
  | acceptFailed errno hp => exact List.prefix_refl _
  | fork hp => exact List.prefix_refl _
  | forkFailed hp => exact List.prefix_refl _
  | report ip hp => exact List.prefix_refl _
  | child hc hs => exact List.prefix_refl _
  | change fs => exact List.prefix_refl _

/-- A child gets to the dispatcher by an emission of its constructor only. -/
private theorem childStep_dispatching {connections : List (Connection σ)} {fs : FileSystem}
    {c c' : Child} {out : Output} (hs : ChildStep server connections fs c c' out)
    {memory : Memory} {webSocket : Bool} {packet : Packet} {payload : List UInt8}
    (h : c'.stage = .dispatching memory webSocket packet payload) :
    ∃ client ∈ connections, ∃ fuel,
      (SecNet.construct server.digest memory fuel client.ssl).outcome = .emit packet payload := by
  cases hs with
  | closeServerSocket hc => cases h
  | accept result hc => cases result <;> cases h
  | receive memory' fuel hc hsocket hclient hr =>
    unfold Child.receive at h
    split at h
    · next ho =>
      cases h
      exact ⟨_,List.mem_of_getElem? hclient,fuel,ho⟩
    · cases h
    · cases h
    · exact absurd (hc.symm.trans h) Stage.noConfusion
  | dispatch hc =>
    unfold Child.dispatch at h
    split at h <;> cases h
  | answer hc =>
    unfold Child.answer at h
    simp only at h
    split at h <;> cases h
  | finish hc => cases h
  | kill hc => cases h

theorem emitted_step (h : Emitted server w) (hs : Step server w w') : Emitted server w' := by
  have hsub := (connections_step hs).subset
  have hkeep : w'.children = w.children → Emitted server w' := by
    intro he c hc memory webSocket packet payload hstage
    obtain ⟨client,hclient,hfuel⟩ := h c (he ▸ hc) memory webSocket packet payload hstage
    exact ⟨client,hsub hclient,hfuel⟩
  cases hs with
  | acceptFailed errno hp => exact hkeep rfl
  | accept ssl hp => exact hkeep rfl
  | forkFailed hp => exact hkeep rfl
  | report ip hp => exact hkeep rfl
  | change fs => exact hkeep rfl
  | fork hp =>
    intro c hc memory webSocket packet payload hstage
    rcases List.mem_append.mp hc with hc | hc
    · exact h c hc memory webSocket packet payload hstage
    · rw [List.mem_singleton.mp hc] at hstage
      cases hstage
  | child hc hchild =>
    intro x hx memory webSocket packet payload hstage
    rcases List.mem_or_eq_of_mem_set hx with hx | rfl
    · exact h x hx memory webSocket packet payload hstage
    · exact childStep_dispatching hchild hstage

theorem emitted_reaches {fs : FileSystem} (h : Reaches server (start server fs) w) :
    Emitted server w := by
  induction h with
  | refl =>
    intro c hc
    cases hc
  | tail _ hs ih => exact emitted_step ih hs

private theorem childStep_files {c c' : Child} {out : Output} (hu : Unasked server f w.connections)
    (he : Emitted server w) (hm : c ∈ w.children)
    (hs : ChildStep server w.connections w.fs c c' out) :
    ChildStep server w.connections (f w.fs) c c' out := by
  cases hs with
  | closeServerSocket hc => exact .closeServerSocket hc
  | accept result hc => exact .accept result hc
  | receive memory fuel hc hsocket hclient hr => exact .receive memory fuel hc hsocket hclient hr
  | @dispatch memory webSocket packet payload hc =>
    obtain ⟨client,hclient,fuel,ho⟩ := he c hm memory webSocket packet payload hc
    have hwindow : (Protocol.packetReceived (server.service w.fs).blockSize
        (server.service w.fs).storage (server.service w.fs).fs memory.block packet payload).1 =
        (Protocol.packetReceived (server.service (f w.fs)).blockSize
          (server.service (f w.fs)).storage (server.service (f w.fs)).fs memory.block packet
          payload).1 :=
      packetReceived_congr rfl fun num hnum =>
        getBlock_window (hu client hclient memory fuel num (ho ▸ hnum) w.fs).symm memory.block
    have hsame : c.dispatch (server.service w.fs) memory webSocket packet payload =
        c.dispatch (server.service (f w.fs)) memory webSocket packet payload := by
      unfold Child.dispatch
      rw [hwindow]
    rw [hsame]
    exact .dispatch hc
  | answer hc => exact .answer hc
  | finish hc => exact .finish hc
  | kill hc => exact .kill hc

theorem files_step (hu : Unasked server f w.connections) (he : Emitted server w)
    (hs : Step server w w') : Step server (w.mapFiles f) (w'.mapFiles f) := by
  cases hs with
  | acceptFailed errno hp => exact .acceptFailed errno hp
  | accept ssl hp =>
    have h : Step server (w.mapFiles f) ((w.mapFiles f).accept ssl) := .accept ssl hp
    have hlen : (w.mapFiles f).past.length = w.past.length := List.length_map f
    simp only [State.accept,hlen] at h
    exact h
  | fork hp hroom => exact .fork hp hroom
  | forkFailed hp => exact .forkFailed hp
  | report ip hp => exact .report ip hp
  | child hc hchild =>
    exact .child hc (childStep_files hu he (List.mem_of_getElem? hc) hchild)
  | change fs =>
    have h : Step server (w.mapFiles f)
        { w.mapFiles f with past := (w.mapFiles f).past ++ [(w.mapFiles f).fs], fs := f fs } :=
      .change (f fs)
    simp only [State.mapFiles] at h
    simp only [State.mapFiles,List.map_append,List.map_singleton]
    exact h

/-- Every run is also a run over files that differ where nobody asks: with the same outputs,
the same processes at the same stages and the same descriptors. -/
theorem unasked_blocks_hidden {fs : FileSystem} (h : Reaches server (start server fs) w)
    (hu : Unasked server f w.connections) :
    Reaches server (start server (f fs)) (w.mapFiles f) := by
  induction h with
  | refl => exact .refl
  | tail hr hs ih =>
    have hprev := fun client hm => hu client ((connections_step hs).subset hm)
    exact (ih hprev).tail (files_step hprev (emitted_reaches hr) hs)

end Run

def cutOff (n : Nat) (fs : FileSystem) : FileSystem where
  lookup path := (fs.lookup path).map fun file =>
    ⟨file.bytes.take n,(List.length_take_le' n file.bytes).trans_lt file.small⟩
  empty_path := by rw [fs.empty_path,Option.map_none]

theorem contents_cutOff (n : Nat) (fs : FileSystem) (path : String) :
    contents (cutOff n fs) path = (contents fs path).take n := by
  have hlookup : (cutOff n fs).lookup path = (fs.lookup path).map fun file =>
    ⟨file.bytes.take n,(List.length_take_le' n file.bytes).trans_lt file.small⟩ := rfl
  rw [contents,contents,hlookup]
  cases fs.lookup path with
  | none => exact List.take_nil.symm
  | some file => rfl

def twoBlocks : FileSystem where
  lookup path := if path = "/blocks" then some ⟨[1,2,3,4,5,6,7,8,9,10,11,12,13,14,15,16],by decide⟩
    else none
  empty_path := rfl

def blockListener : Listener :=
  ⟨standardLaunch,noDigest,8,Blockstorage.create twoBlocks "/blocks",standardProcesses⟩

def readingClient : Wire := ⟨[1,1,8,0,0,0,0,0,0,0,0,0,0,0,0,0,0,0]⟩

/-- Block 0 is read over the whole file, and so it is over the first block alone. -/
theorem reading_hidden : ∃ w : State Wire,
    Reaches blockListener (start blockListener (cutOff 8 twoBlocks)) (w.mapFiles (cutOff 8)) ∧
      (.client 0,.record [1,5,8,0,0,0,0,0,0,0,1,2,3,4,5,6,7,8]) ∈ w.output ∧
      ∃ c ∈ w.children, c.stage = .exited := by
  have h := firstConstructing_reached blockListener twoBlocks readingClient
  have hs := (sound_reaches h).child _ (List.mem_of_getElem? (i := 0) rfl)
  have h := h.tail (.child (i := 0) rfl
    (childStep_receive hs.1 rfl rfl ⟨false,fun _ => 0,fun _ => 0,fun _ => 0,fun _ => 0⟩ 0
      (by decide)))
  have h := h.tail (.child (i := 0) rfl (.dispatch rfl))
  have hanswering := (sound_reaches h).child _ (List.mem_of_getElem? (i := 0) rfl)
  have hsent := write_mem hanswering.1 rfl
    (List.cons_ne_nil 1 [5,8,0,0,0,0,0,0,0,1,2,3,4,5,6,7,8])
  have h := h.tail (.child (i := 0) rfl (.answer rfl))
  have h := h.tail (.child (i := 0) rfl (.finish rfl))
  refine ⟨_,unasked_blocks_hidden h ?_,
    List.mem_append_left _ (List.mem_append_right _ hsent),
    _,List.mem_of_getElem? (i := 0) rfl,rfl⟩
  intro client hm memory fuel num hnum fs
  obtain rfl := List.mem_singleton.mp hm
  have hzero : num = 0 := (Option.some.inj hnum).symm
  have hstart : Blockstorage.blockPosition 8 0 = 0 := rfl
  rw [hzero,contents_cutOff,blockWindow,blockWindow]
  change List.take 8 (List.drop (Blockstorage.blockPosition 8 0) _) = _
  rw [hstart,List.drop_zero,List.take_take]
  rfl

end ListenLoop
end Shepoo.Server
