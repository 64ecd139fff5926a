import Mathlib

/-! Descriptor tables of processes. A number names an open object or nothing, and whatever
is opened gets the lowest number that names nothing. -/
namespace Shepoo.Foundation.DescriptorTable

@[ext] structure Table (α : Type) where
  entry : Nat → Option α
  finite : ∃ n, ∀ fd, n ≤ fd → entry fd = none

variable {α : Type}

namespace Table

def nothing : Table α := ⟨fun _ => none,0,fun _ _ => rfl⟩

theorem exists_free (table : Table α) : ∃ fd, table.entry fd = none := by
  obtain ⟨n,hn⟩ := table.finite
  exact ⟨n,hn n le_rfl⟩

def lowestFree (table : Table α) : Nat := Nat.find table.exists_free

def put (fd : Nat) (object : Option α) (table : Table α) : Table α where
  entry := Function.update table.entry fd object
  finite := by
    obtain ⟨n,hn⟩ := table.finite
    refine ⟨max n (fd+1),fun k hk => ?_⟩
    have hne : k ≠ fd := by omega
    rw [Function.update_of_ne hne]
    exact hn k (by omega)

def opened (object : α) (table : Table α) : Table α := table.put table.lowestFree (some object)

def close (fd : Nat) (table : Table α) : Table α := table.put fd none

def Holds (table : Table α) (object : α) : Prop := ∃ fd, table.entry fd = some object

variable (table : Table α) (object : α) (fd : Nat)

@[simp] theorem entry_nothing : (nothing : Table α).entry fd = none := rfl

@[simp] theorem entry_lowestFree : table.entry table.lowestFree = none :=
  Nat.find_spec table.exists_free

variable {table object fd}

theorem lowestFree_le (h : table.entry fd = none) : table.lowestFree ≤ fd :=
  Nat.find_le h

theorem lowestFree_eq (hfree : table.entry fd = none) (h : ∀ k < fd, table.entry k ≠ none) :
    table.lowestFree = fd := by
  refine (lowestFree_le hfree).antisymm (Nat.le_of_not_lt fun hlt => ?_)
  exact h _ hlt table.entry_lowestFree

theorem entry_put (k : Nat) (o : Option α) :
    (table.put fd o).entry k = if k = fd then o else table.entry k :=
  Function.update_apply ..

theorem entry_opened (k : Nat) :
    (table.opened object).entry k = if k = table.lowestFree then some object else table.entry k :=
  entry_put ..

theorem entry_close (k : Nat) :
    (table.close fd).entry k = if k = fd then none else table.entry k :=
  entry_put ..

theorem entry_opened_of_some {k : Nat} {o : α} (h : table.entry k = some o) :
    (table.opened object).entry k = some o := by
  rw [entry_opened,if_neg]
  · exact h
  · rintro rfl
    rw [entry_lowestFree] at h
    cases h

theorem ne_lowestFree {k : Nat} {o : α} (h : table.entry k = some o) : k ≠ table.lowestFree := by
  rintro rfl
  rw [entry_lowestFree] at h
  cases h

/-- To close what was opened last brings the old table back. -/
theorem close_opened : (table.opened object).close table.lowestFree = table := by
  ext1
  funext k
  rw [entry_close,entry_opened]
  split
  · next h => rw [h,entry_lowestFree]
  · rfl

theorem holds_opened {o : α} : (table.opened object).Holds o ↔ o = object ∨ table.Holds o := by
  constructor
  · rintro ⟨k,hk⟩
    rw [entry_opened] at hk
    split at hk
    · exact .inl (Option.some.inj hk).symm
    · exact .inr ⟨k,hk⟩
  · rintro (rfl | ⟨k,hk⟩)
    · exact ⟨table.lowestFree,by rw [entry_opened,if_pos rfl]⟩
    · exact ⟨k,entry_opened_of_some hk⟩

theorem holds_of_close {o : α} (h : (table.close fd).Holds o) : table.Holds o := by
  obtain ⟨k,hk⟩ := h
  rw [entry_close] at hk
  split at hk
  · cases hk
  · exact ⟨k,hk⟩

theorem not_holds_nothing (o : α) : ¬ (nothing : Table α).Holds o := by
  rintro ⟨k,hk⟩
  cases hk

/-- An object under one number only is gone once that number is closed. -/
theorem not_holds_close (h : ∀ k, table.entry k = some object → k = fd) :
    ¬ (table.close fd).Holds object := by
  rintro ⟨k,hk⟩
  rw [entry_close] at hk
  split at hk
  · cases hk
  · next hne => exact hne (h k hk)

end Table
end Shepoo.Foundation.DescriptorTable
