import Mathlib

/-! Fixed-width byte encodings of naturals, in both byte orders.
Values are Mathlib's base-256 digit sums; encodings drop what does not fit. -/
namespace Shepoo.Foundation.ByteCodec

/-- The w low bytes of n, least significant first. -/
def le : Nat → Nat → List UInt8
  | 0, _ => []
  | w+1, n => UInt8.ofNat n :: le w (n/256)

def leValue (bytes : List UInt8) : Nat := Nat.ofDigits 256 (bytes.map UInt8.toNat)

/-- The w low bytes of n in network order. -/
def be (w n : Nat) : List UInt8 := (le w n).reverse

def beValue (bytes : List UInt8) : Nat := leValue bytes.reverse

@[simp] theorem leValue_nil : leValue [] = 0 := rfl

@[simp] theorem leValue_cons (b : UInt8) (bytes : List UInt8) :
    leValue (b::bytes) = b.toNat + 256*leValue bytes := by
  simp [leValue,Nat.ofDigits_cons]

@[simp] theorem length_le (w n : Nat) : (le w n).length = w := by
  induction w generalizing n with
  | zero => rfl
  | succ w ih => simp [le,ih]

@[simp] theorem length_be (w n : Nat) : (be w n).length = w := by
  simp [be]

theorem leValue_append (a b : List UInt8) :
    leValue (a ++ b) = leValue a + 256^a.length*leValue b := by
  simp [leValue,Nat.ofDigits_append]

theorem leValue_lt (bytes : List UInt8) : leValue bytes < 256^bytes.length := by
  have h := Nat.ofDigits_lt_base_pow_length' (b := 254) (l := bytes.map UInt8.toNat) (by
    intro d hd
    obtain ⟨b,_,rfl⟩ := List.mem_map.mp hd
    exact b.toNat_lt)
  simpa [leValue] using h

/-- Decoding an encoding keeps exactly the bits that fit in the width. -/
theorem leValue_le (w n : Nat) : leValue (le w n) = n % 256^w := by
  induction w generalizing n with
  | zero => simp [le,Nat.mod_one]
  | succ w ih =>
    rw [le,leValue_cons,ih,pow_succ',Nat.mod_mul]
    simp

theorem leValue_le_of_lt {w n : Nat} (h : n < 256^w) : leValue (le w n) = n := by
  rw [leValue_le,Nat.mod_eq_of_lt h]

theorem le_leValue (bytes : List UInt8) : le bytes.length (leValue bytes) = bytes := by
  induction bytes with
  | nil => rfl
  | cons b bytes ih =>
    have hb : b.toNat < 256 := b.toNat_lt
    rw [List.length_cons,le,leValue_cons]
    rw [Nat.add_mul_div_left _ _ (by omega),Nat.div_eq_of_lt hb,Nat.zero_add,ih]
    congr 1
    apply UInt8.toNat_inj.mp
    rw [UInt8.toNat_ofNat']
    omega

theorem leValue_inj {a b : List UInt8} (hl : a.length = b.length)
    (h : leValue a = leValue b) : a = b := by
  rw [← le_leValue a,← le_leValue b,hl,h]

theorem leValue_zeros (k : Nat) : leValue (List.replicate k 0) = 0 := by
  induction k with
  | zero => rfl
  | succ k ih => simp [List.replicate_succ,ih]

/-- Clearing the high bytes does not make a value larger. -/
theorem leValue_take_le (bytes : List UInt8) (k m : Nat) :
    leValue (bytes.take k ++ List.replicate m 0) ≤ leValue bytes := by
  have h := leValue_append (bytes.take k) (bytes.drop k)
  rw [List.take_append_drop] at h
  rw [leValue_append,leValue_zeros,h]
  omega

theorem be_beValue (bytes : List UInt8) : be bytes.length (beValue bytes) = bytes := by
  rw [be,beValue,← List.length_reverse,le_leValue,List.reverse_reverse]

theorem beValue_cons (b : UInt8) (bytes : List UInt8) :
    beValue (b::bytes) = b.toNat*256^bytes.length + beValue bytes := by
  rw [beValue,List.reverse_cons,leValue_append,List.length_reverse,leValue_cons,leValue_nil,
    beValue]
  ring

/-- Each byte counts with the weight of its place. -/
theorem beValue_eq_sum {bytes : List UInt8} {n : Nat} (h : bytes.length = n) :
    beValue bytes = ∑ i : Fin n,(bytes.get (i.cast h.symm)).toNat*256^(n-1-i.val) := by
  subst h
  induction bytes with
  | nil => rfl
  | cons b bytes ih =>
    rw [beValue_cons,ih]
    symm
    refine (Fin.sum_univ_succ (n := bytes.length) _).trans ?_
    congr 1
    apply Finset.sum_congr rfl
    intro i _
    have hp : bytes.length-(i.val+1) = bytes.length-1-i.val := by omega
    exact congrArg (fun p => (bytes.get i).toNat*256^p) hp

theorem beValue_be_of_lt {w n : Nat} (h : n < 256^w) : beValue (be w n) = n := by
  rw [beValue,be,List.reverse_reverse,leValue_le_of_lt h]

end Shepoo.Foundation.ByteCodec
