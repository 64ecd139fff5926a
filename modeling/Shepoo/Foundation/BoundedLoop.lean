import Mathlib

/-! While loops run on a budget of iterations. A loop that is left is told apart
from one broken inside its body and from one still going when the budget is spent. -/
namespace Shepoo.Foundation.BoundedLoop

inductive Progress (α : Type) where
  | done : α → Progress α
  | fault : Progress α
  | running : Progress α
  deriving DecidableEq, Repr

variable {α β : Type}

namespace Progress

def bind (p : Progress α) (f : α → Progress β) : Progress β :=
  match p with
  | .done a => f a
  | .fault => .fault
  | .running => .running

instance : Monad Progress where
  pure := .done
  bind := Progress.bind

def ofOption : Option α → Progress α
  | some a => .done a
  | none => .fault

@[simp] theorem bind_done (a : α) (f : α → Progress β) : (Progress.done a >>= f) = f a := rfl
@[simp] theorem bind_fault (f : α → Progress β) : ((Progress.fault : Progress α) >>= f) = .fault := rfl
@[simp] theorem bind_running (f : α → Progress β) :
    ((Progress.running : Progress α) >>= f) = .running := rfl
@[simp] theorem pure_eq (a : α) : (pure a : Progress α) = .done a := rfl

/-- A sequence is done only through a done first part. -/
theorem bind_eq_done {p : Progress α} {f : α → Progress β} {b : β} :
    (p >>= f) = .done b ↔ ∃ a, p = .done a ∧ f a = .done b := by
  cases p <;> simp

end Progress

/-- While the guard holds run the body, which may fault. -/
def loop (guard : α → Bool) (body : α → Option α) : Nat → α → Progress α
  | 0, a => if guard a then .running else .done a
  | n+1, a =>
    if guard a then
      match body a with
      | some b => loop guard body n b
      | none => .fault
    else .done a

def Step (guard : α → Bool) (body : α → Option α) (a b : α) : Prop :=
  guard a = true ∧ body a = some b

abbrev Reaches (guard : α → Bool) (body : α → Option α) : α → α → Prop :=
  Relation.ReflTransGen (Step guard body)

variable {guard : α → Bool} {body : α → Option α}

theorem loop_exit {a : α} (h : guard a = false) (n : Nat) : loop guard body n a = .done a := by
  cases n <;> simp [loop,h]

theorem loop_step {a b : α} (h : Step guard body a b) (n : Nat) :
    loop guard body (n+1) a = loop guard body n b := by
  simp [loop,h.1,h.2]

theorem loop_fault {a : α} (hg : guard a = true) (hb : body a = none) (n : Nat) :
    loop guard body (n+1) a = .fault := by
  simp [loop,hg,hb]

/-- A larger budget changes nothing once the loop is left or broken. -/
theorem loop_mono {n m : Nat} {a : α} (h : loop guard body n a ≠ .running) (hm : n ≤ m) :
    loop guard body m a = loop guard body n a := by
  induction n generalizing a m with
  | zero =>
    cases hg : guard a with
    | true => simp [loop,hg] at h
    | false => rw [loop_exit hg,loop_exit hg]
  | succ n ih =>
    obtain ⟨k,rfl⟩ := Nat.exists_eq_add_of_le hm
    rw [Nat.add_right_comm]
    cases hg : guard a with
    | true =>
      cases hb : body a with
      | none => rw [loop_fault hg hb,loop_fault hg hb]
      | some b =>
        rw [loop_step ⟨hg,hb⟩] at h ⊢
        rw [loop_step ⟨hg,hb⟩]
        exact ih h (Nat.le_add_right n k)
    | false => rw [loop_exit hg,loop_exit hg]

/-- Only a body that may fault breaks a loop. -/
theorem loop_ne_fault (h : ∀ a, body a ≠ none) (n : Nat) (a : α) :
    loop guard body n a ≠ .fault := by
  induction n generalizing a with
  | zero =>
    cases hg : guard a <;> simp [loop,hg]
  | succ n ih =>
    cases hg : guard a with
    | true =>
      obtain ⟨b,hb⟩ := Option.ne_none_iff_exists'.mp (h a)
      rw [loop_step ⟨hg,hb⟩]
      exact ih b
    | false =>
      simp [loop_exit hg]

theorem reaches_of_done {n : Nat} {a b : α} (h : loop guard body n a = .done b) :
    Reaches guard body a b := by
  induction n generalizing a with
  | zero =>
    cases hg : guard a with
    | true => simp [loop,hg] at h
    | false =>
      rw [loop_exit hg] at h
      cases h
      exact .refl
  | succ n ih =>
    cases hg : guard a with
    | true =>
      cases hb : body a with
      | none =>
        rw [loop_fault hg hb] at h
        cases h
      | some c =>
        have hs : Step guard body a c := ⟨hg,hb⟩
        rw [loop_step hs] at h
        exact .head hs (ih h)
    | false =>
      rw [loop_exit hg] at h
      cases h
      exact .refl

theorem invariant_of_reaches (I : α → Prop) (hI : ∀ a b, I a → Step guard body a b → I b)
    {a b : α} (h : Reaches guard body a b) (ha : I a) : I b := by
  induction h with
  | refl => exact ha
  | tail _ hs ih => exact hI _ _ ih hs

/-- Reaching a state costs a fixed number of iterations, whatever budget is left. -/
theorem loop_of_reaches {a b : α} (h : Reaches guard body a b) :
    ∃ cost, ∀ n, loop guard body (cost+n) a = loop guard body n b := by
  induction h using Relation.ReflTransGen.head_induction_on with
  | refl => exact ⟨0,fun n => by rw [Nat.zero_add]⟩
  | head hs _ ih =>
    obtain ⟨cost,hc⟩ := ih
    refine ⟨cost+1,fun n => ?_⟩
    rw [Nat.add_right_comm,loop_step hs,hc]

theorem done_of_reaches {a b : α} (h : Reaches guard body a b) (hb : guard b = false) :
    ∃ cost, ∀ n, cost ≤ n → loop guard body n a = .done b := by
  obtain ⟨cost,hc⟩ := loop_of_reaches h
  refine ⟨cost,fun n hn => ?_⟩
  obtain ⟨k,rfl⟩ := Nat.exists_eq_add_of_le hn
  rw [hc,loop_exit hb]

/-- A loop whose every state under an invariant iterates again is never left. -/
theorem running_of_invariant (I : α → Prop)
    (hI : ∀ a, I a → ∃ b, Step guard body a b ∧ I b) (n : Nat) {a : α} (ha : I a) :
    loop guard body n a = .running := by
  induction n generalizing a with
  | zero =>
    obtain ⟨b,hs,_⟩ := hI a ha
    simp [loop,hs.1]
  | succ n ih =>
    obtain ⟨b,hs,hb⟩ := hI a ha
    rw [loop_step hs]
    exact ih hb

theorem running_of_reaches {a b : α} (h : Reaches guard body a b)
    (hb : ∀ n, loop guard body n b = .running) (n : Nat) : loop guard body n a = .running := by
  induction h using Relation.ReflTransGen.head_induction_on generalizing n with
  | refl => exact hb n
  | head hs _ ih =>
    cases n with
    | zero => simp [loop,hs.1]
    | succ n => rw [loop_step hs,ih]

theorem fault_of_reaches {a b : α} (h : Reaches guard body a b) (hg : guard b = true)
    (hb : body b = none) : ∃ cost, ∀ n, cost ≤ n → loop guard body n a = .fault := by
  obtain ⟨cost,hc⟩ := loop_of_reaches h
  refine ⟨cost+1,fun n hn => ?_⟩
  obtain ⟨k,rfl⟩ := Nat.exists_eq_add_of_le hn
  rw [Nat.add_assoc,hc,Nat.add_comm,loop_fault hg hb]

end Shepoo.Foundation.BoundedLoop
