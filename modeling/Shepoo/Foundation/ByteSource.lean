import Mathlib

/-! Blocking reads of a byte stream into a caller's buffer. A source fixes how much
of a request one read delivers; the bytes and their order are never its choice. -/
namespace Shepoo.Foundation.ByteSource

/-- The stream behind a connection. A read delivers a prefix of what is still to
come, at most what was asked for, and something while anything is left. -/
class Source (σ : Type) where
  read : Nat → σ → List UInt8 × σ
  pending : σ → List UInt8
  read_append : ∀ n s, (read n s).1 ++ pending (read n s).2 = pending s
  read_length : ∀ n s, (read n s).1.length ≤ n
  read_progress : ∀ n s, 0 < n → pending s ≠ [] → (read n s).1 ≠ []

open Source

section Source
variable {σ : Type} [Source σ]

theorem read_eq_take (n : Nat) (s : σ) :
    (read n s).1 = (pending s).take (read n s).1.length := by
  rw [← read_append n s,List.take_left]

theorem pending_read (n : Nat) (s : σ) :
    pending (read n s).2 = (pending s).drop (read n s).1.length := by
  conv_rhs => rw [← read_append n s]
  rw [List.drop_left]

/-- One byte at a time every source delivers the stream in order. -/
theorem read_one {s : σ} {c : UInt8} {rest : List UInt8} (h : pending s = c::rest) :
    (read 1 s).1 = [c] ∧ pending (read 1 s).2 = rest := by
  have hl : (read 1 s).1.length = 1 := by
    have hle := read_length 1 s
    have hpos := List.length_pos_iff.mpr
      (read_progress 1 s Nat.one_pos (by rw [h]; exact List.cons_ne_nil _ _))
    omega
  constructor
  · rw [read_eq_take,hl,h]; rfl
  · rw [pending_read,hl,h]; rfl

/-- A source that is used up stays used up. -/
theorem read_end {s : σ} (n : Nat) (h : pending s = []) :
    (read n s).1 = [] ∧ pending (read n s).2 = [] :=
  List.append_eq_nil_iff.mp ((read_append n s).trans h)

end Source

/-- The stream itself: a read delivers every requested byte that exists. -/
structure Wire where
  bytes : List UInt8
  deriving DecidableEq, Repr

instance : Source Wire where
  read n s := (s.bytes.take n,⟨s.bytes.drop n⟩)
  pending s := s.bytes
  read_append n s := List.take_append_drop n s.bytes
  read_length n s := by simp
  read_progress n s hn hs := by
    cases n with
    | zero => omega
    | succ n => simpa using hs

@[simp] theorem wire_read (n : Nat) (bytes : List UInt8) :
    read n (⟨bytes⟩ : Wire) = (bytes.take n,⟨bytes.drop n⟩) := rfl
@[simp] theorem wire_pending (bytes : List UInt8) : pending (⟨bytes⟩ : Wire) = bytes := rfl

/-- A record of the transport layer carries at least one byte. -/
abbrev Record := {bytes : List UInt8 // bytes ≠ []}

/-- The stream cut into records. Within a record a read delivers all it is asked
for, unless the next limit holds it down to fewer bytes. -/
structure Records where
  cut : List Record
  limits : List Nat
  deriving DecidableEq, Repr

namespace Records

def stream (cut : List Record) : List UInt8 := (cut.map Subtype.val).flatten

def restore (left : List UInt8) (cut : List Record) : List Record :=
  if h : left = [] then cut else ⟨left,h⟩::cut

theorem stream_restore (left : List UInt8) (cut : List Record) :
    stream (restore left cut) = left ++ stream cut := by
  unfold restore
  split
  · next h => simp [h]
  · simp [stream]

/-- The count a read of n bytes returns: between 1 and n while a record is left,
and never more than the rest of that record. -/
def delivered (n : Nat) (s : Records) : Nat :=
  match s.cut with
  | [] => 0
  | r::_ =>
    match s.limits with
    | [] => min n r.val.length
    | limit::_ => min (max 1 limit) (min n r.val.length)

def take (n : Nat) (s : Records) : List UInt8 × Records :=
  match s.cut with
  | [] => ([],⟨[],s.limits.tail⟩)
  | r::rest =>
    (r.val.take (s.delivered n),⟨restore (r.val.drop (s.delivered n)) rest,s.limits.tail⟩)

theorem delivered_le (n : Nat) (s : Records) : s.delivered n ≤ n := by
  unfold delivered
  split
  · omega
  · split <;> omega

instance : Source Records where
  read := take
  pending s := stream s.cut
  read_append n s := by
    unfold take
    split
    · next h => simp [h,stream]
    · next r rest h =>
      rw [stream_restore,← List.append_assoc,List.take_append_drop]
      simp [h,stream]
  read_length n s := by
    unfold take
    split
    · simp
    · rw [List.length_take]
      exact (Nat.min_le_left _ _).trans (delivered_le n s)
  read_progress n s hn hs := by
    unfold take
    split
    · next h => simp [h,stream] at hs
    · next r rest h =>
      have hr := List.length_pos_iff.mpr r.property
      have hd : 0 < s.delivered n := by
        unfold delivered
        rw [h]
        split
        · next heq => cases heq
        · next heq => cases heq; split <;> omega
      intro hnil
      have := congrArg List.length hnil
      simp only [List.length_take,List.length_nil] at this
      omega

@[simp] theorem pending_eq (s : Records) : pending s = stream s.cut := rfl

theorem length_read (n : Nat) (s : Records) : (read n s).1.length = s.delivered n := by
  change (take n s).1.length = _
  unfold take
  split
  · next h => simp [delivered,h]
  · next r rest h =>
    have hd : s.delivered n ≤ r.val.length := by
      unfold delivered
      rw [h]
      split
      · next heq => cases heq
      · next heq => cases heq; split <;> omega
    simp [hd]

theorem restore_append (left : List UInt8) (cut cut' : List Record) :
    restore left (cut ++ cut') = restore left cut ++ cut' := by
  unfold restore
  split <;> rfl

theorem stream_append (cut cut' : List Record) :
    stream (cut ++ cut') = stream cut ++ stream cut' := by
  simp [stream]

theorem stream_eq_nil {cut : List Record} (h : stream cut = []) : cut = [] := by
  cases cut with
  | nil => rfl
  | cons r rest => exact absurd (List.append_eq_nil_iff.mp h).1 r.property

/-- As long as reads stop before the last records, these stay as they were cut. -/
theorem read_keeps (n : Nat) (cut last : List Record)
    (h : (stream last).length ≤ (pending (read n (⟨cut ++ last,[]⟩ : Records)).2).length) :
    ∃ left, (read n (⟨cut ++ last,[]⟩ : Records)).2 = ⟨left ++ last,[]⟩ := by
  cases cut with
  | cons r cut =>
    refine ⟨restore (r.val.drop (min n r.val.length)) cut,?_⟩
    rw [← restore_append]
    rfl
  | nil =>
    cases last with
    | nil => exact ⟨[],rfl⟩
    | cons r last =>
      have hread : (read n (⟨[] ++ r::last,[]⟩ : Records)).2 =
          ⟨restore (r.val.drop (min n r.val.length)) last,[]⟩ := rfl
      rw [hread,pending_eq,stream_restore] at h
      have hr := List.length_pos_iff.mpr r.property
      have hz : min n r.val.length = 0 := by
        simp only [stream,List.map_cons,List.flatten_cons,List.length_append,
          List.length_drop] at h
        omega
      refine ⟨[],?_⟩
      rw [hread,hz,List.drop_zero,restore,dif_neg r.property]
      rfl

end Records

/-- A buffer after a read: the delivered bytes, then its old contents. -/
def fill (buffer bytes : List UInt8) : List UInt8 := bytes ++ buffer.drop bytes.length

theorem length_fill {buffer bytes : List UInt8} (h : bytes.length ≤ buffer.length) :
    (fill buffer bytes).length = buffer.length := by
  simp [fill,h]

theorem fill_full {buffer bytes : List UInt8} (h : buffer.length = bytes.length) :
    fill buffer bytes = bytes := by
  simp [fill,h.symm]

def fresh (garbage : Nat → UInt8) (n : Nat) : List UInt8 := (List.range n).map garbage

@[simp] theorem length_fresh (garbage : Nat → UInt8) (n : Nat) :
    (fresh garbage n).length = n := by
  simp [fresh]

theorem fresh_const (c : UInt8) (n : Nat) : fresh (fun _ => c) n = List.replicate n c := by
  rw [fresh,List.map_const',List.length_range]

/-- Only bytes that fill the buffer leave nothing of its old contents. -/
theorem fill_fresh_determined_iff (n : Nat) (bytes : List UInt8) :
    (∀ garbage garbage', fill (fresh garbage n) bytes = fill (fresh garbage' n) bytes) ↔
      n ≤ bytes.length := by
  constructor
  · intro h
    have hc := h (fun _ => 0) (fun _ => 1)
    rw [fresh_const,fresh_const,fill,fill,List.append_right_inj,List.drop_replicate,
      List.drop_replicate] at hc
    by_contra hn
    exact absurd (List.replicate_right_injective (by omega) hc) (by decide)
  · intro h garbage garbage'
    rw [fill,fill,List.drop_of_length_le (by rwa [length_fresh]),
      List.drop_of_length_le (by rwa [length_fresh])]

/-- Over all old contents a buffer has one value only if the bytes fill it. -/
theorem fill_fresh_eq_iff {n : Nat} {bytes : List UInt8} (h : bytes.length ≤ n)
    (data : List UInt8) :
    (∀ garbage, fill (fresh garbage n) bytes = data) ↔ bytes = data ∧ bytes.length = n := by
  constructor
  · intro hall
    have hlen : bytes.length = n := h.antisymm ((fill_fresh_determined_iff n bytes).mp
      fun garbage garbage' => (hall garbage).trans (hall garbage').symm)
    have hdata := hall fun _ => 0
    rw [fill_full ((length_fresh _ n).trans hlen.symm)] at hdata
    exact ⟨hdata,hlen⟩
  · rintro ⟨rfl,hlen⟩ garbage
    exact fill_full ((length_fresh _ n).trans hlen.symm)

end Shepoo.Foundation.ByteSource
