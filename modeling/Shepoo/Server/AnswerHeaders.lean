import Shepoo.Server.Protocol

/-! What an answer's header announces against the data that goes with it. -/
namespace Shepoo.Server.AnswerHeaders
open Foundation PosixFile Protocol

/-- The header announces nothing, or no more than the data has. -/
def Truthful (answer : Answer) : Prop :=
  answer.1.payloadLength = 0 ∨
    ∃ data, answer.2 = some data ∧ answer.1.payloadLength.toNat ≤ data.length

/-- A block answer announces a block; without one there is no data at all. -/
private theorem blockAnswer_truthful_iff (blockSize : UInt64) (storage : Blockstorage)
    (fs : FileSystem) (garbage : Nat → UInt8) (num : UInt64) :
    Truthful (⟨supportedVersion,Commands.blockAnswer.code,blockSize⟩,
      (storage.getBlock blockSize fs garbage num).1) ↔
        ¬ (blockSize ≠ 0 ∧ storage.isBlockAvailable blockSize num = false) := by
  cases ha : storage.isBlockAvailable blockSize num with
  | false =>
    rw [Truthful,Blockstorage.getBlock_unavailable ha]
    simp
  | true =>
    rw [← Blockstorage.getBlock_isSome blockSize storage fs garbage num] at ha
    obtain ⟨block,hb⟩ := Option.isSome_iff_exists.mp ha
    have hl := Blockstorage.length_getBlock hb
    exact iff_of_true (.inr ⟨block,hb,hl.ge⟩) (by simp)

private theorem single_truthful_iff (answer : Answer) :
    (∀ answers, Dispatch.returned [answer] = .returned answers → ∀ a ∈ answers, Truthful a) ↔
      Truthful answer := by
  constructor
  · intro h
    exact h _ rfl _ List.mem_cons_self
  · intro h answers ha a hm
    cases ha
    rw [List.mem_singleton] at hm
    exact hm ▸ h

/-- Every header is true to its data exactly when no block is asked for that the
availability check refuses: the missing block is announced like any other. -/
theorem answers_truthful_iff (blockSize : UInt64) (storage : Blockstorage) (fs : FileSystem)
    (garbage : Nat → UInt8) (packet : Packet) (payload : List UInt8) :
    (∀ answers, (packetReceived blockSize storage fs garbage packet payload).1 =
      .returned answers → ∀ answer ∈ answers, Truthful answer) ↔
    ¬ (packet = ⟨supportedVersion,Commands.readBlock.code,8⟩ ∧ 8 ≤ payload.length ∧
      blockSize ≠ 0 ∧ storage.isBlockAvailable blockSize (blockNumber payload) = false) := by
  by_cases hd : Decodes blockSize packet
  · by_cases hl : payload.length < 8
    · rw [packetReceived_pastPayload hd storage fs garbage hl]
      refine iff_of_true (fun answers h => by cases h) ?_
      rintro ⟨_,hl',_⟩
      omega
    · have hl' := Nat.not_lt.mp hl
      have hn := extractUint64FromPayload_long hl'
      cases hd with
      | readBlock =>
        rw [packetReceived_readBlock _ _ _ _ hn,single_truthful_iff,blockAnswer_truthful_iff]
        exact not_congr ⟨fun h => ⟨rfl,hl',h⟩,fun h => h.2.2⟩
      | writeBlock =>
        rw [packetReceived_writeBlock _ _ _ _ hn,single_truthful_iff]
        refine iff_of_true (.inl rfl) fun h => ?_
        have hc : Commands.writeBlock.code = Commands.readBlock.code := congrArg Packet.command h.1
        exact absurd hc (by decide)
      | isBlockAvailable n =>
        rw [packetReceived_isBlockAvailable _ _ _ _ n hn,single_truthful_iff]
        refine iff_of_true (.inl rfl) fun h => ?_
        have hc : Commands.isBlockAvailable.code = Commands.readBlock.code :=
          congrArg Packet.command h.1
        exact absurd hc (by decide)
  · obtain ⟨dispatch,hdispatch,hall⟩ := packetReceived_undecoded hd
    rw [hall]
    refine iff_of_true (fun answers ha answer hm => ?_) (fun h => hd (h.1 ▸ .readBlock))
    rcases hdispatch with rfl | ⟨rfl,_⟩
    · cases ha
    · cases ha
      cases hm

def oneBlock : FileSystem where
  lookup path := if path = "/store" then some ⟨[1,2,3,4],by decide⟩ else none
  empty_path := rfl

/-- The request for the block behind the last one is answered with a header for a whole
block and no data. -/
theorem missing_block_announced :
    ¬ ∀ answers, (packetReceived 4 (Blockstorage.create oneBlock "/store") oneBlock
      (fun _ => 0) ⟨supportedVersion,Commands.readBlock.code,8⟩ [0,0,0,0,0,0,0,1]).1 =
        .returned answers → ∀ answer ∈ answers, Truthful answer := by
  intro h
  have ht := h [(⟨supportedVersion,Commands.blockAnswer.code,4⟩,none)] (by decide) _
    List.mem_cons_self
  rcases ht with hz | ⟨data,hn,_⟩
  · exact absurd hz (by decide)
  · cases hn

end Shepoo.Server.AnswerHeaders
