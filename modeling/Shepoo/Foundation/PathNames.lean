import Mathlib

/-! Names of files. A path is a walk over the names between its slashes; only a path that does
not start with a slash goes by the working directory. -/
namespace Shepoo.Foundation.PathNames

variable {α : Type} [DecidableEq α] {slash : α} {cwd path : List α}

/-- Several slashes in a row count as one. -/
def names (slash : α) (path : List α) : List (List α) :=
  (path.splitOn slash).filter fun name => name ≠ []

def Absolute (slash : α) (path : List α) : Prop := path.head? = some slash

instance (slash : α) (path : List α) : Decidable (Absolute slash path) :=
  inferInstanceAs (Decidable (_ = _))

/-- The names to walk from the root; the empty path leads nowhere. -/
def resolve (slash : α) (cwd path : List α) : Option (List (List α)) :=
  if path = [] then none
  else if Absolute slash path then some (names slash path)
  else some (names slash cwd ++ names slash path)

theorem names_join (slash : α) (front back : List α) :
    names slash (front ++ slash::back) = names slash front ++ names slash back := by
  rw [names,List.splitOn_append_cons_self,List.filter_append]
  rfl

/-- The working directory does not matter to an absolute path. -/
theorem resolve_absolute (h : Absolute slash path) (cwd cwd' : List α) :
    resolve slash cwd path = resolve slash cwd' path := by
  rw [resolve,resolve,if_pos h,if_pos h]

/-- A relative path behind the working directory leads where it led from there. -/
theorem resolve_join (hc : Absolute slash cwd) (hne : path ≠ []) (hp : ¬ Absolute slash path)
    (cwd' : List α) :
    resolve slash cwd' (cwd ++ slash::path) = resolve slash cwd path := by
  have hjoin : Absolute slash (cwd ++ slash::path) := by
    rw [Absolute,List.head?_append,hc]
    rfl
  have hcons : cwd ++ slash::path ≠ [] := by simp
  rw [resolve,if_neg hcons,if_pos hjoin,resolve,if_neg hne,if_neg hp,names_join]

end Shepoo.Foundation.PathNames
