import Shepoo.Server.Blockstorage
import Shepoo.Server.Packet

/-! The dispatcher: one received packet, its payload buffer and the block store
give at most one answer. Reading past the payload buffer is an outcome of its own. -/
namespace Shepoo.Server
open Foundation ByteCodec ByteSource PosixFile

/-- As set by the configure script. -/
def versionMajor : UInt8 := 0
def versionMinor : UInt8 := 1

def supportedVersion : UInt8 := (versionMajor <<< 4) ||| versionMinor

inductive Commands where
  | readBlock
  | writeBlock
  | lockBlocks
  | getMapping
  | blockAnswer
  | isBlockAvailable
  | ok
  | nok
  deriving DecidableEq, Repr

def Commands.code : Commands → UInt8
  | .readBlock => 1
  | .writeBlock => 2
  | .lockBlocks => 3
  | .getMapping => 4
  | .blockAnswer => 5
  | .isBlockAvailable => 6
  | .ok => 7
  | .nok => 8

def Commands.ofCode : UInt8 → Option Commands
  | 1 => some .readBlock
  | 2 => some .writeBlock
  | 3 => some .lockBlocks
  | 4 => some .getMapping
  | 5 => some .blockAnswer
  | 6 => some .isBlockAvailable
  | 7 => some .ok
  | 8 => some .nok
  | _ => none

theorem Commands.ofCode_eq_some {code : UInt8} {command : Commands}
    (h : Commands.ofCode code = some command) : code = command.code := by
  unfold Commands.ofCode at h
  split at h <;> cases h <;> rfl

/-- One `sendPacket` call: the header and the payload pointer, `none` for `NULL`. -/
abbrev Answer := Packet × Option (List UInt8)

inductive Dispatch where
  | exit
  | pastPayload
  /-- the calls of `sendPacket` made before returning -/
  | returned (answers : List Answer)
  deriving DecidableEq, Repr

namespace Protocol

/-- Reads `payload[0]` to `payload[7]`, or runs off the buffer. -/
def extractUint64FromPayload (payload : List UInt8) : Option UInt64 := do
  let b0 ← payload[0]?
  let b1 ← payload[1]?
  let b2 ← payload[2]?
  let b3 ← payload[3]?
  let b4 ← payload[4]?
  let b5 ← payload[5]?
  let b6 ← payload[6]?
  let b7 ← payload[7]?
  let result := b0.toUInt64 <<< 56
  let result := result ||| b1.toUInt64 <<< 48
  let result := result ||| b2.toUInt64 <<< 40
  let result := result ||| b3.toUInt64 <<< 32
  let result := result ||| b4.toUInt64 <<< 24
  let result := result ||| b5.toUInt64 <<< 16
  let result := result ||| b6.toUInt64 <<< 8
  let result := result ||| b7.toUInt64
  return result

/-- What the handler does, and the file system it leaves behind. -/
def packetReceived (blockSize : UInt64) (storage : Blockstorage) (fs : FileSystem)
    (garbage : Nat → UInt8) (packet : Packet) (payload : List UInt8) : Dispatch × FileSystem :=
  if packet.version ≠ supportedVersion then (.exit,fs)
  else
    match Commands.ofCode packet.command with
    | some .readBlock =>
      if packet.payloadLength ≠ 8 then (.exit,fs)
      else
        match extractUint64FromPayload payload with
        | none => (.pastPayload,fs)
        | some blockNumber =>
          let blockData := (storage.getBlock blockSize fs garbage blockNumber).1
          let answer := ⟨packet.version,Commands.blockAnswer.code,blockSize⟩
          (.returned [(answer,blockData)],fs)
    | some .writeBlock =>
      if packet.payloadLength ≠ 8+blockSize then (.exit,fs)
      else
        match extractUint64FromPayload payload with
        | none => (.pastPayload,fs)
        | some blockNumber =>
          let fs := Blockstorage.storeBlock fs blockNumber (payload.drop 8)
          let answer := ⟨packet.version,Commands.ok.code,0⟩
          (.returned [(answer,none)],fs)
    | some .lockBlocks => (.returned [],fs)
    | some .getMapping => (.returned [],fs)
    | some .isBlockAvailable =>
      match extractUint64FromPayload payload with
      | none => (.pastPayload,fs)
      | some blockNumber =>
        let available := storage.isBlockAvailable blockSize blockNumber
        let command := if available then Commands.ok else Commands.nok
        let answer := ⟨packet.version,command.code,0⟩
        (.returned [(answer,none)],fs)
    | _ => (.exit,fs)

/-- Eight fresh low bits: the or neither loses nor overlaps a bit. -/
private theorem or_shift {a s : UInt64} {k m : Nat} (b : UInt8) (hs : s.toNat = k) (hk : k ≤ 56)
    (ha : a.toNat = 2^(k+8)*m) :
    (a ||| b.toUInt64 <<< s).toNat = 2^k*(256*m+b.toNat) := by
  have hb := b.toNat_lt
  have hlt : b.toNat*2^k < 2^(k+8) := by
    rw [pow_add,Nat.mul_comm]
    exact Nat.mul_lt_mul_of_pos_left hb (by positivity)
  have hle : 2^(k+8) ≤ 2^64 := Nat.pow_le_pow_right (by omega) (by omega)
  rw [UInt64.toNat_or,UInt64.toNat_shiftLeft,hs,UInt8.toNat_toUInt64,
    Nat.mod_eq_of_lt (a := k) (by omega),Nat.shiftLeft_eq,Nat.mod_eq_of_lt (by omega),ha,
    ← Nat.two_pow_add_eq_or_of_lt hlt]
  rw [pow_add]
  ring

/-- The decoder needs eight bytes, reads their big-endian value and nothing more. -/
theorem extractUint64FromPayload_eq (payload : List UInt8) :
    extractUint64FromPayload payload =
      if 8 ≤ payload.length then some (UInt64.ofNat (beValue (payload.take 8))) else none := by
  match payload with
  | b0::b1::b2::b3::b4::b5::b6::b7::rest =>
    rw [if_pos (by simp)]
    simp only [extractUint64FromPayload,List.getElem?_cons_zero,List.getElem?_cons_succ,
      Option.bind_eq_bind,Option.bind_some,pure,Option.some.injEq]
    apply UInt64.toNat_inj.mp
    have h0 : (b0.toUInt64 <<< 56).toNat = 2^(48+8)*b0.toNat := by
      simpa using or_shift (a := 0) (s := 56) (k := 56) (m := 0) b0 rfl (by omega) rfl
    have h1 := or_shift b1 (s := 48) (k := 48) rfl (by omega) h0
    have h2 := or_shift b2 (s := 40) (k := 40) rfl (by omega) h1
    have h3 := or_shift b3 (s := 32) (k := 32) rfl (by omega) h2
    have h4 := or_shift b4 (s := 24) (k := 24) rfl (by omega) h3
    have h5 := or_shift b5 (s := 16) (k := 16) rfl (by omega) h4
    have h6 := or_shift b6 (s := 8) (k := 8) rfl (by omega) h5
    have h7 := or_shift b7 (s := 0) (k := 0) rfl (by omega) h6
    rw [UInt64.shiftLeft_zero] at h7
    have hv : beValue [b0,b1,b2,b3,b4,b5,b6,b7] < 2^64 := by
      have := leValue_lt [b7,b6,b5,b4,b3,b2,b1,b0]
      exact this.trans_eq (by norm_num)
    rw [h7,UInt64.toNat_ofNat']
    change _ = beValue [b0,b1,b2,b3,b4,b5,b6,b7] % 2^64
    rw [Nat.mod_eq_of_lt hv]
    simp only [beValue,List.reverse_cons,List.reverse_nil,List.nil_append,List.cons_append,
      leValue_cons,leValue_nil]
    ring
  | [] => rfl
  | [_] => rfl
  | [_,_] => rfl
  | [_,_,_] => rfl
  | [_,_,_,_] => rfl
  | [_,_,_,_,_] => rfl
  | [_,_,_,_,_,_] => rfl
  | [_,_,_,_,_,_,_] => rfl

def blockNumber (payload : List UInt8) : UInt64 := UInt64.ofNat (beValue (payload.take 8))

theorem extractUint64FromPayload_long {payload : List UInt8} (h : 8 ≤ payload.length) :
    extractUint64FromPayload payload = some (blockNumber payload) := by
  rw [extractUint64FromPayload_eq,if_pos h,blockNumber]

theorem extractUint64FromPayload_be {n : Nat} (h : n < 2^64) (rest : List UInt8) :
    extractUint64FromPayload (be 8 n ++ rest) = some (UInt64.ofNat n) := by
  rw [extractUint64FromPayload_eq,if_pos (by simp),List.take_left' (length_be 8 n),
    beValue_be_of_lt (h.trans_eq (by norm_num))]

/-- No handler changes the file system: the only one that should is `storeBlock`'s. -/
theorem packetReceived_fs (blockSize : UInt64) (storage : Blockstorage) (fs : FileSystem)
    (garbage : Nat → UInt8) (packet : Packet) (payload : List UInt8) :
    (packetReceived blockSize storage fs garbage packet payload).2 = fs := by
  unfold packetReceived Blockstorage.storeBlock
  repeat' split
  all_goals rfl

theorem packetReceived_readBlock (blockSize : UInt64) (storage : Blockstorage)
    (fs : FileSystem) (garbage : Nat → UInt8) {payload : List UInt8} {num : UInt64}
    (h : extractUint64FromPayload payload = some num) :
    (packetReceived blockSize storage fs garbage
      ⟨supportedVersion,Commands.readBlock.code,8⟩ payload).1 =
        .returned [(⟨supportedVersion,Commands.blockAnswer.code,blockSize⟩,
          (storage.getBlock blockSize fs garbage num).1)] := by
  simp [packetReceived,Commands.code,Commands.ofCode,h]

theorem packetReceived_writeBlock (blockSize : UInt64) (storage : Blockstorage)
    (fs : FileSystem) (garbage : Nat → UInt8) {payload : List UInt8} {num : UInt64}
    (h : extractUint64FromPayload payload = some num) :
    (packetReceived blockSize storage fs garbage
      ⟨supportedVersion,Commands.writeBlock.code,8+blockSize⟩ payload).1 =
        .returned [(⟨supportedVersion,Commands.ok.code,0⟩,none)] := by
  simp [packetReceived,Commands.code,Commands.ofCode,h]

/-- The availability request is the one whose announced length is not looked at. -/
theorem packetReceived_isBlockAvailable (blockSize : UInt64) (storage : Blockstorage)
    (fs : FileSystem) (garbage : Nat → UInt8) (payloadLength : UInt64) {payload : List UInt8}
    {num : UInt64} (h : extractUint64FromPayload payload = some num) :
    (packetReceived blockSize storage fs garbage
      ⟨supportedVersion,Commands.isBlockAvailable.code,payloadLength⟩ payload).1 =
        .returned [(⟨supportedVersion,
          (if storage.isBlockAvailable blockSize num then Commands.ok else Commands.nok).code,0⟩,
          none)] := by
  simp [packetReceived,Commands.code,Commands.ofCode,h]

/-- The packets whose handlers decode a block number out of the payload. -/
inductive Decodes (blockSize : UInt64) : Packet → Prop
  | readBlock : Decodes blockSize ⟨supportedVersion,Commands.readBlock.code,8⟩
  | writeBlock : Decodes blockSize ⟨supportedVersion,Commands.writeBlock.code,8+blockSize⟩
  | isBlockAvailable (payloadLength : UInt64) :
    Decodes blockSize ⟨supportedVersion,Commands.isBlockAvailable.code,payloadLength⟩

theorem Decodes.version {blockSize : UInt64} {packet : Packet} (h : Decodes blockSize packet) :
    packet.version = supportedVersion := by
  cases h <;> rfl

/-- Any other packet has its outcome before the payload is looked at. -/
theorem packetReceived_undecoded {blockSize : UInt64} {packet : Packet}
    (h : ¬ Decodes blockSize packet) :
    ∃ dispatch,
      (dispatch = .exit ∨ (dispatch = .returned [] ∧ packet.version = supportedVersion)) ∧
      ∀ storage fs garbage payload,
        (packetReceived blockSize storage fs garbage packet payload).1 = dispatch := by
  obtain ⟨version,code,payloadLength⟩ := packet
  by_cases hv : version = supportedVersion
  · subst hv
    cases hc : Commands.ofCode code with
    | none => exact ⟨.exit,.inl rfl,by simp [packetReceived,hc]⟩
    | some command =>
      obtain rfl := Commands.ofCode_eq_some hc
      cases command with
      | readBlock =>
        have hn : payloadLength ≠ 8 := fun he => h (he ▸ .readBlock)
        exact ⟨.exit,.inl rfl,by simp [packetReceived,hc,hn]⟩
      | writeBlock =>
        have hn : payloadLength ≠ 8+blockSize := fun he => h (he ▸ .writeBlock)
        exact ⟨.exit,.inl rfl,by simp [packetReceived,hc,hn]⟩
      | isBlockAvailable => exact absurd (.isBlockAvailable payloadLength) h
      | lockBlocks => exact ⟨.returned [],.inr ⟨rfl,rfl⟩,by simp [packetReceived,hc]⟩
      | getMapping => exact ⟨.returned [],.inr ⟨rfl,rfl⟩,by simp [packetReceived,hc]⟩
      | blockAnswer => exact ⟨.exit,.inl rfl,by simp [packetReceived,hc]⟩
      | ok => exact ⟨.exit,.inl rfl,by simp [packetReceived,hc]⟩
      | nok => exact ⟨.exit,.inl rfl,by simp [packetReceived,hc]⟩
  · exact ⟨.exit,.inl rfl,by simp [packetReceived,hv]⟩

/-- A payload of fewer than eight bytes is read past its end. -/
theorem packetReceived_pastPayload {blockSize : UInt64} {packet : Packet}
    (h : Decodes blockSize packet) (storage : Blockstorage) (fs : FileSystem)
    (garbage : Nat → UInt8) {payload : List UInt8} (hl : payload.length < 8) :
    (packetReceived blockSize storage fs garbage packet payload).1 = .pastPayload := by
  have hn : extractUint64FromPayload payload = none := by
    rw [extractUint64FromPayload_eq,if_neg (Nat.not_le.mpr hl)]
  cases h <;> simp [packetReceived,Commands.code,Commands.ofCode,hn]

theorem packetReceived_decoded {blockSize : UInt64} {packet : Packet}
    (h : Decodes blockSize packet) (storage : Blockstorage) (fs : FileSystem)
    (garbage : Nat → UInt8) {payload : List UInt8} {num : UInt64}
    (hn : extractUint64FromPayload payload = some num) :
    ∃ answer, (packetReceived blockSize storage fs garbage packet payload).1 =
      .returned [answer] ∧ answer.1.version = supportedVersion := by
  cases h with
  | readBlock => exact ⟨_,packetReceived_readBlock _ _ _ _ hn,rfl⟩
  | writeBlock => exact ⟨_,packetReceived_writeBlock _ _ _ _ hn,rfl⟩
  | isBlockAvailable n => exact ⟨_,packetReceived_isBlockAvailable _ _ _ _ n hn,rfl⟩

/-- At most one answer is sent, and only to a packet of the supported version. -/
theorem packetReceived_answers (blockSize : UInt64) (storage : Blockstorage) (fs : FileSystem)
    (garbage : Nat → UInt8) (packet : Packet) (payload : List UInt8) {answers : List Answer}
    (h : (packetReceived blockSize storage fs garbage packet payload).1 = .returned answers) :
    packet.version = supportedVersion ∧
      (answers = [] ∨ ∃ answer, answers = [answer] ∧ answer.1.version = supportedVersion) := by
  by_cases hd : Decodes blockSize packet
  · by_cases hl : payload.length < 8
    · rw [packetReceived_pastPayload hd storage fs garbage hl] at h
      cases h
    · obtain ⟨answer,ha,hv⟩ := packetReceived_decoded hd storage fs garbage
        (extractUint64FromPayload_long (Nat.not_lt.mp hl))
      rw [ha] at h
      cases h
      exact ⟨hd.version,.inr ⟨answer,rfl,hv⟩⟩
  · obtain ⟨dispatch,hdispatch,hall⟩ := packetReceived_undecoded hd
    rw [hall storage fs garbage payload] at h
    rcases hdispatch with rfl | ⟨rfl,hv⟩
    · cases h
    · cases h
      exact ⟨hv,.inl rfl⟩

end Protocol
end Shepoo.Server
