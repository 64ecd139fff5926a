import Shepoo.Foundation.BoundedLoop

/-! Programs of several loops on one budget. What such a program comes to on some budget it
comes to on every larger one, so budgets can be left out of what is said about it. -/
namespace Shepoo.Foundation.BoundedLoop

variable {α β : Type}

/-- A larger budget changes nothing once the program has come to something. -/
def Settles (p : Nat → Progress α) : Prop :=
  ∀ n m, n ≤ m → p n ≠ .running → p m = p n

namespace Settles

theorem const (result : Progress α) : Settles fun _ => result := fun _ _ _ _ => rfl

theorem loop (guard : α → Bool) (body : α → Option α) (a : α) :
    Settles fun n => BoundedLoop.loop guard body n a := fun _ _ hm h => loop_mono h hm

theorem bind {p : Nat → Progress α} {f : Nat → α → Progress β} (hp : Settles p)
    (hf : ∀ a, Settles fun n => f n a) : Settles fun n => p n >>= f n := by
  intro n m hm h
  change p n >>= f n ≠ .running at h
  change p m >>= f m = p n >>= f n
  have hfirst : p n ≠ .running := by
    intro hr
    rw [hr] at h
    exact h rfl
  rw [hp n m hm hfirst]
  cases hn : p n with
  | running => rfl
  | fault => rfl
  | done a =>
    rw [hn] at h
    exact hf a n m hm h

/-- A loop over a list, each turn of which is a program. -/
theorem foldlM {f : Nat → β → α → Progress β} (hf : ∀ b a, Settles fun n => f n b a)
    (items : List α) (b : β) : Settles fun n => items.foldlM (f n) b := by
  induction items generalizing b with
  | nil => exact const _
  | cons a items ih =>
    simp only [List.foldlM_cons]
    exact bind (hf b a) ih

theorem unique {p : Nat → Progress α} (hp : Settles p) {n m : Nat} (hn : p n ≠ .running)
    (hm : p m ≠ .running) : p n = p m :=
  (hp n (max n m) (le_max_left n m) hn).symm.trans (hp m (max n m) (le_max_right n m) hm)

end Settles

section Loop
variable {guard : α → Bool} {body : α → Option α}

theorem guard_of_done {n : Nat} {a b : α} (h : BoundedLoop.loop guard body n a = .done b) :
    guard b = false := by
  induction n generalizing a with
  | zero =>
    cases hg : guard a with
    | true => simp [BoundedLoop.loop,hg] at h
    | false =>
      rw [loop_exit hg] at h
      cases h
      exact hg
  | succ n ih =>
    cases hg : guard a with
    | true =>
      cases hb : body a with
      | none =>
        rw [loop_fault hg hb] at h
        cases h
      | some c =>
        rw [loop_step ⟨hg,hb⟩] at h
        exact ih h
    | false =>
      rw [loop_exit hg] at h
      cases h
      exact hg

theorem reaches_of_fault {n : Nat} {a : α} (h : BoundedLoop.loop guard body n a = .fault) :
    ∃ b, Reaches guard body a b ∧ guard b = true ∧ body b = none := by
  induction n generalizing a with
  | zero =>
    cases hg : guard a with
    | true => simp [BoundedLoop.loop,hg] at h
    | false =>
      rw [loop_exit hg] at h
      cases h
  | succ n ih =>
    cases hg : guard a with
    | true =>
      cases hb : body a with
      | none => exact ⟨a,.refl,hg,hb⟩
      | some c =>
        have hs : Step guard body a c := ⟨hg,hb⟩
        rw [loop_step hs] at h
        obtain ⟨b,hreach,hbroken⟩ := ih h
        exact ⟨b,.head hs hreach,hbroken⟩
    | false =>
      rw [loop_exit hg] at h
      cases h

end Loop

/-- What every turn of a loop over a list keeps, the loop keeps. -/
theorem foldlM_invariant {f : β → α → Progress β} (I : β → Prop)
    (hI : ∀ b a b', I b → f b a = .done b' → I b') {items : List α} {b b' : β}
    (h : items.foldlM f b = .done b') (hb : I b) : I b' := by
  induction items generalizing b with
  | nil =>
    cases h
    exact hb
  | cons a items ih =>
    obtain ⟨next,hnext,hrest⟩ := Progress.bind_eq_done.mp h
    exact ih hrest (hI b a next hb hnext)

end Shepoo.Foundation.BoundedLoop
