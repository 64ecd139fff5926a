import Mathlib

/-! What an array of cells holds after a sequence of accesses: the last write to a
cell wins and nothing else touches it. -/
namespace Shepoo.Foundation.CellArray

inductive Access (ι β : Type) where
  | write (cell : ι) (value : β)
  | other
  deriving DecidableEq, Repr

variable {ι β : Type} [DecidableEq ι]

def perform (cells : ι → β) : Access ι β → ι → β
  | .write cell value => Function.update cells cell value
  | .other => cells

def after (cells : ι → β) (accesses : List (Access ι β)) : ι → β :=
  accesses.foldl perform cells

theorem after_append (cells : ι → β) (a b : List (Access ι β)) :
    after cells (a ++ b) = after (after cells a) b := by
  simp [after]

theorem after_untouched {cell : ι} {accesses : List (Access ι β)}
    (h : ∀ value, Access.write cell value ∉ accesses) (cells : ι → β) :
    after cells accesses cell = cells cell := by
  induction accesses generalizing cells with
  | nil => rfl
  | cons access accesses ih =>
    have hr : ∀ value, Access.write cell value ∉ accesses :=
      fun value hv => h value (List.mem_cons_of_mem _ hv)
    change after (perform cells access) accesses cell = _
    rw [ih hr]
    cases access with
    | other => rfl
    | write other value =>
      have hne : cell ≠ other := by
        rintro rfl
        exact h value List.mem_cons_self
      exact Function.update_of_ne hne value cells

theorem after_last_write {cell : ι} {mid : List (Access ι β)}
    (h : ∀ value, Access.write cell value ∉ mid) (cells : ι → β)
    (pre : List (Access ι β)) (value : β) :
    after cells (pre ++ .write cell value::mid) cell = value := by
  rw [after_append]
  change after (perform (after cells pre) (.write cell value)) mid cell = value
  rw [after_untouched h]
  exact Function.update_self ..

/-- Writing what a cell already holds is not observable. -/
theorem after_rewrites {cell : ι} {cells : ι → β} {accesses : List (Access ι β)}
    (h : ∀ value, Access.write cell value ∈ accesses → value = cells cell) :
    after cells accesses cell = cells cell := by
  induction accesses using List.reverseRecOn with
  | nil => rfl
  | append_singleton accesses access ih =>
    have hr := ih fun value hv => h value (List.mem_append_left _ hv)
    rw [after_append]
    change perform (after cells accesses) access cell = _
    cases access with
    | other => exact hr
    | write other value =>
      by_cases hc : cell = other
      · subst hc
        rw [perform,Function.update_self]
        exact h value (List.mem_append_right _ List.mem_cons_self)
      · rw [perform,Function.update_of_ne hc]
        exact hr

end Shepoo.Foundation.CellArray
