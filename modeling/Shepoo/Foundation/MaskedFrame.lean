import Shepoo.Foundation.ByteCodec

/-! The frame format of WebSocket version 13: flags and opcode, a length in one of
three forms, an optional masking key and the data. The order of the extended length
bytes is a parameter; the standard prescribes network order and the minimal form. -/
namespace Shepoo.Foundation.MaskedFrame
open ByteCodec

abbrev MaskingKey := {key : List UInt8 // key.length = 4}

/-- Byte i of the data is combined with byte i mod 4 of the key. -/
def mask (key data : List UInt8) : List UInt8 :=
  data.mapIdx fun i b => b ^^^ key.getD (i%4) 0

@[simp] theorem length_mask (key data : List UInt8) : (mask key data).length = data.length := by
  simp [mask]

theorem getElem?_mask (key data : List UInt8) (i : Nat) :
    (mask key data)[i]? = data[i]?.map fun b => b ^^^ key.getD (i%4) 0 := by
  simp [mask]

theorem mask_mask (key data : List UInt8) : mask key (mask key data) = data := by
  apply List.ext_getElem?
  intro i
  rw [getElem?_mask,getElem?_mask,Option.map_map]
  have hx (b k : UInt8) : b ^^^ k ^^^ k = b := by
    rw [UInt8.xor_assoc,UInt8.xor_self,UInt8.xor_zero]
  simp [Function.comp_def,hx]

/-- The first byte, most significant bit first: FIN, three reserved bits, opcode. -/
def flagByte (fin : Bool) (rsv : BitVec 3) (opcode : BitVec 4) : UInt8 :=
  UInt8.ofNat (opcode.toNat + 16*rsv.toNat + 128*fin.toNat)

/-- The second byte, most significant bit first: MASK and the seven length bits. -/
def lengthByte (masked : Bool) (code : Nat) : UInt8 := UInt8.ofNat (code + 128*masked.toNat)

section Bits
variable (fin masked : Bool) (rsv : BitVec 3) (opcode : BitVec 4) {code : Nat}

theorem flagByte_toNat :
    (flagByte fin rsv opcode).toNat = opcode.toNat + 16*rsv.toNat + 128*fin.toNat := by
  have ho := opcode.isLt
  have hr := rsv.isLt
  have hf := Bool.toNat_lt fin
  rw [flagByte,UInt8.toNat_ofNat']
  omega

@[simp] theorem flagByte_fin : decide (128 ≤ (flagByte fin rsv opcode).toNat) = fin := by
  have ho := opcode.isLt
  have hr := rsv.isLt
  rw [flagByte_toNat]
  cases fin with
  | false => simp; omega
  | true => simp

@[simp] theorem flagByte_rsv : BitVec.ofNat 3 ((flagByte fin rsv opcode).toNat/16) = rsv := by
  have ho := opcode.isLt
  apply BitVec.eq_of_toNat_eq
  rw [flagByte_toNat,BitVec.toNat_ofNat]
  omega

@[simp] theorem flagByte_opcode : BitVec.ofNat 4 (flagByte fin rsv opcode).toNat = opcode := by
  have ho := opcode.isLt
  apply BitVec.eq_of_toNat_eq
  rw [flagByte_toNat,BitVec.toNat_ofNat]
  omega

theorem lengthByte_toNat (h : code < 128) :
    (lengthByte masked code).toNat = code + 128*masked.toNat := by
  have hm := Bool.toNat_lt masked
  rw [lengthByte,UInt8.toNat_ofNat']
  omega

theorem lengthByte_mask (h : code < 128) :
    decide (128 ≤ (lengthByte masked code).toNat) = masked := by
  rw [lengthByte_toNat masked h]
  cases masked <;> simp [h]

theorem lengthByte_code (h : code < 128) : (lengthByte masked code).toNat%128 = code := by
  rw [lengthByte_toNat masked h]
  omega

/-- Every byte is the flag byte of its own bits. -/
theorem flagByte_bits (b : UInt8) :
    flagByte (decide (128 ≤ b.toNat)) (BitVec.ofNat 3 (b.toNat/16)) (BitVec.ofNat 4 b.toNat) = b := by
  have hb := b.toNat_lt
  apply UInt8.toNat_inj.mp
  rw [flagByte_toNat,BitVec.toNat_ofNat,BitVec.toNat_ofNat]
  by_cases h : 128 ≤ b.toNat
  · rw [decide_eq_true h,Bool.toNat_true]
    omega
  · rw [decide_eq_false h,Bool.toNat_false]
    omega

theorem lengthByte_bits (b : UInt8) :
    lengthByte (decide (128 ≤ b.toNat)) (b.toNat%128) = b := by
  have hb := b.toNat_lt
  apply UInt8.toNat_inj.mp
  rw [lengthByte_toNat _ (Nat.mod_lt _ (by decide))]
  by_cases h : 128 ≤ b.toNat
  · rw [decide_eq_true h,Bool.toNat_true]
    omega
  · rw [decide_eq_false h,Bool.toNat_false]
    omega

end Bits

structure Frame where
  fin : Bool
  rsv : BitVec 3
  opcode : BitVec 4
  key : Option MaskingKey
  data : List UInt8
  deriving DecidableEq, Repr

inductive LengthForm where
  | short
  | medium
  | long
  deriving DecidableEq, Repr

namespace LengthForm

def Admits : LengthForm → Nat → Prop
  | .short, n => n < 126
  | .medium, n => n < 2^16
  | .long, n => n < 2^64

instance (form : LengthForm) (n : Nat) : Decidable (form.Admits n) := by
  cases form <;> exact inferInstanceAs (Decidable (_ < _))

def minimal (n : Nat) : LengthForm :=
  if n < 126 then .short else if n < 2^16 then .medium else .long

theorem minimal_admits {n : Nat} (h : n < 2^64) : (minimal n).Admits n := by
  unfold minimal
  split
  · assumption
  · split <;> assumption

def code : LengthForm → Nat → Nat
  | .short, n => n
  | .medium, _ => 126
  | .long, _ => 127

theorem code_lt {form : LengthForm} {n : Nat} (h : form.Admits n) : form.code n < 128 := by
  cases form with
  | short => exact Nat.lt_trans h (by decide)
  | medium => exact (by decide : 126 < 128)
  | long => exact (by decide : 127 < 128)

/-- The seven bits tell which form the sender chose. -/
theorem code_form {form form' : LengthForm} {n n' : Nat} (h : form.Admits n)
    (h' : form'.Admits n') (hc : form.code n = form'.code n') : form = form' := by
  cases form with
  | short =>
    cases form' with
    | short => rfl
    | medium => exact absurd (h.trans_eq hc.symm) (lt_irrefl _)
    | long => exact absurd (h.trans (Nat.lt_succ_self 126)) hc.not_lt
  | medium =>
    cases form' with
    | short => exact absurd (h'.trans_eq hc) (lt_irrefl _)
    | medium => rfl
    | long => cases hc
  | long =>
    cases form' with
    | short => exact absurd (h'.trans (Nat.lt_succ_self 126)) hc.symm.not_lt
    | medium => cases hc
    | long => rfl

def width : LengthForm → Nat
  | .short => 0
  | .medium => 2
  | .long => 8

def extended (order : Nat → Nat → List UInt8) : LengthForm → Nat → List UInt8
  | .short, _ => []
  | .medium, n => order 2 n
  | .long, n => order 8 n

theorem length_extended {order : Nat → Nat → List UInt8} (h : ∀ w n, (order w n).length = w)
    (form : LengthForm) (n n' : Nat) :
    (form.extended order n).length = (form.extended order n').length := by
  cases form with
  | short => rfl
  | medium => exact (h 2 n).trans (h 2 n').symm
  | long => exact (h 8 n).trans (h 8 n').symm

/-- Behind equal first bytes two frames continue at the same place. -/
theorem header_cancel {order : Nat → Nat → List UInt8} (horder : ∀ w n, (order w n).length = w)
    {form form' : LengthForm} {n n' : Nat} (h : form.Admits n) (h' : form'.Admits n')
    {masked : Bool} {flags flags' : UInt8} {rest rest' : List UInt8}
    (he : flags::lengthByte masked (form.code n)::(form.extended order n ++ rest) =
      flags'::lengthByte masked (form'.code n')::(form'.extended order n' ++ rest')) :
    rest = rest' := by
  rw [List.cons.injEq,List.cons.injEq] at he
  obtain ⟨_,hbyte,hrest⟩ := he
  have hc : form.code n = form'.code n' := by
    rw [← lengthByte_code masked (code_lt h),hbyte,lengthByte_code masked (code_lt h')]
  obtain rfl := code_form h h' hc
  exact (List.append_inj hrest (length_extended horder form n n')).2

end LengthForm

namespace Frame

def keyBytes (frame : Frame) : List UInt8 :=
  match frame.key with
  | none => []
  | some key => key.val

def maskedData (frame : Frame) : List UInt8 :=
  match frame.key with
  | none => frame.data
  | some key => mask key.val frame.data

@[simp] theorem length_maskedData (frame : Frame) :
    frame.maskedData.length = frame.data.length := by
  unfold maskedData
  split <;> simp

def head (frame : Frame) (form : LengthForm) : List UInt8 :=
  [flagByte frame.fin frame.rsv frame.opcode,
    lengthByte frame.key.isSome (form.code frame.data.length)]

def encode (order : Nat → Nat → List UInt8) (form : LengthForm) (frame : Frame) : List UInt8 :=
  frame.head form ++ (form.extended order frame.data.length ++
    (frame.keyBytes ++ frame.maskedData))

def standard (frame : Frame) : List UInt8 :=
  frame.encode be (LengthForm.minimal frame.data.length)

end Frame

/-- A decoder that follows the standard: it accepts only minimal lengths. -/
def decodeLength (code : Nat) (bytes : List UInt8) : Option (Nat × List UInt8) :=
  if code < 126 then some (code,bytes)
  else if code = 126 then
    if 2 ≤ bytes.length ∧ 126 ≤ beValue (bytes.take 2) then
      some (beValue (bytes.take 2),bytes.drop 2)
    else none
  else
    if 8 ≤ bytes.length ∧ 2^16 ≤ beValue (bytes.take 8) ∧ beValue (bytes.take 8) < 2^63 then
      some (beValue (bytes.take 8),bytes.drop 8)
    else none

def decodeKey (masked : Bool) (bytes : List UInt8) : Option (Option MaskingKey × List UInt8) :=
  if masked then
    if h : 4 ≤ bytes.length then
      some (some ⟨bytes.take 4,by simpa using h⟩,bytes.drop 4)
    else none
  else some (none,bytes)

def decode (bytes : List UInt8) : Option (Frame × List UInt8) :=
  match bytes with
  | b0::b1::rest => do
    let (n,rest) ← decodeLength (b1.toNat%128) rest
    let (key,rest) ← decodeKey (decide (128 ≤ b1.toNat)) rest
    if n ≤ rest.length then
      let frame : Frame := ⟨decide (128 ≤ b0.toNat),BitVec.ofNat 3 (b0.toNat/16),
        BitVec.ofNat 4 b0.toNat,key,rest.take n⟩
      some ({ frame with data := frame.maskedData },rest.drop n)
    else none
  | _ => none

theorem decodeLength_extended {n : Nat} (h : n < 2^63) (rest : List UInt8) :
    decodeLength ((LengthForm.minimal n).code n)
      ((LengthForm.minimal n).extended be n ++ rest) = some (n,rest) := by
  unfold LengthForm.minimal
  split
  · next hs => simp [LengthForm.code,LengthForm.extended,decodeLength,hs]
  · next hs =>
    split
    · next hm =>
      have hv : beValue (be 2 n) = n := beValue_be_of_lt (hm.trans_eq (by norm_num))
      have ht : (be 2 n ++ rest).take 2 = be 2 n := List.take_left' (length_be 2 n)
      have hd : (be 2 n ++ rest).drop 2 = rest := List.drop_left' (length_be 2 n)
      simp only [LengthForm.code,LengthForm.extended,decodeLength,ht,hd,hv]
      simp [Nat.le_of_not_lt hs]
    · next hm =>
      have hv : beValue (be 8 n) = n := beValue_be_of_lt (by omega)
      have ht : (be 8 n ++ rest).take 8 = be 8 n := List.take_left' (length_be 8 n)
      have hd : (be 8 n ++ rest).drop 8 = rest := List.drop_left' (length_be 8 n)
      simp only [LengthForm.code,LengthForm.extended,decodeLength,ht,hd,hv]
      simp [show 65536 ≤ n by omega,show n < 9223372036854775808 by omega]

theorem decodeKey_keyBytes (frame : Frame) (rest : List UInt8) :
    decodeKey frame.key.isSome (frame.keyBytes ++ rest) = some (frame.key,rest) := by
  unfold Frame.keyBytes
  cases frame.key with
  | none => rfl
  | some key =>
    have ht : (key.val ++ rest).take 4 = key.val := List.take_left' key.property
    have hd : (key.val ++ rest).drop 4 = rest := List.drop_left' key.property
    have hl : 4 ≤ (key.val ++ rest).length := by
      rw [List.length_append,key.property]
      omega
    simp only [Option.isSome_some,decodeKey,if_true,hl,dif_pos,hd,Option.some.injEq,
      Prod.mk.injEq,and_true]
    exact Subtype.ext ht

/-- The standard's encoding is read back with nothing lost and nothing left over. -/
theorem decode_standard {frame : Frame} (h : frame.data.length < 2^63) (rest : List UInt8) :
    decode (frame.standard ++ rest) = some (frame,rest) := by
  have hc : (LengthForm.minimal frame.data.length).code frame.data.length < 128 :=
    LengthForm.code_lt (LengthForm.minimal_admits (h.trans (by norm_num)))
  have hl := frame.length_maskedData
  have hu : ({ frame with data := frame.maskedData } : Frame).maskedData = frame.data := by
    unfold Frame.maskedData
    cases frame.key with
    | none => rfl
    | some key => exact mask_mask key.val frame.data
  rw [Frame.standard,Frame.encode,Frame.head]
  simp only [List.cons_append,List.nil_append,List.append_assoc,decode,
    lengthByte_code _ hc,lengthByte_mask _ hc,decodeLength_extended h,decodeKey_keyBytes,
    Option.bind_eq_bind,Option.bind_some,flagByte_fin,flagByte_rsv,flagByte_opcode]
  rw [if_pos (by rw [List.length_append,hl]; omega),List.take_left' hl,List.drop_left' hl,hu]

end Shepoo.Foundation.MaskedFrame
