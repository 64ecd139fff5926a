import Mathlib

/-! Spellings of one header field. The letter case of a name and the blanks between the
colon and the value carry no meaning; a line without a colon is no field and has only one
spelling. -/
namespace Shepoo.Foundation.FieldSpelling

def colon : UInt8 := 58

/-- ASCII letters in lower case, any other byte as it is. -/
def lower (c : UInt8) : UInt8 := if 65 ≤ c ∧ c ≤ 90 then c+32 else c

def blank (c : UInt8) : Bool := c == 32 || c == 9

/-- A byte below the letters is nothing else in lower case. -/
theorem lower_eq_iff {s : UInt8} (hs : s < 65) (c : UInt8) : lower c = s ↔ c = s := by
  unfold lower
  split
  · grind
  · rfl

theorem lower_ne_upper {s : UInt8} (hl : 65 ≤ s) (hu : s ≤ 90) (c : UInt8) : lower c ≠ s := by
  unfold lower
  split
  · grind
  · grind

/-- A name in lower case contains no upper-case letter. -/
theorem map_lower_ne {name text : List UInt8} {s : UInt8} (hs : s ∈ text) (hl : 65 ≤ s)
    (hu : s ≤ 90) : name.map lower ≠ text := by
  rintro rfl
  obtain ⟨c,_,hc⟩ := List.mem_map.mp hs
  exact lower_ne_upper hl hu c hc

theorem lower_lower (c : UInt8) : lower (lower c) = lower c := by
  unfold lower
  split
  · split
    · grind
    · rfl
  · rfl

theorem map_lower_lower (name : List UInt8) : (name.map lower).map lower = name.map lower := by
  rw [List.map_map]
  exact List.map_congr_left fun c _ => lower_lower c

/-- Names that agree up to case have the same low bytes. -/
theorem mem_of_lower_eq {name name' : List UInt8} (h : name.map lower = name'.map lower)
    {s : UInt8} (hs : s < 65) : s ∈ name ↔ s ∈ name' := by
  have hmem (text : List UInt8) : s ∈ text ↔ s ∈ text.map lower := by
    rw [List.mem_map]
    constructor
    · intro hm
      exact ⟨s,hm,(lower_eq_iff hs s).mpr rfl⟩
    · rintro ⟨c,hm,hc⟩
      rwa [← (lower_eq_iff hs c).mp hc]
  rw [hmem name,h,← hmem name']

inductive Respelled : List UInt8 → List UInt8 → Prop
  | bare {line : List UInt8} (h : colon ∉ line) : Respelled line line
  | field {name name' gap gap' value : List UInt8} (h : colon ∉ name)
    (hn : name.map lower = name'.map lower) (hg : ∀ c ∈ gap, blank c = true)
    (hg' : ∀ c ∈ gap', blank c = true) :
    Respelled (name ++ colon::(gap ++ value)) (name' ++ colon::(gap' ++ value))

def fieldName (line : List UInt8) : List UInt8 := line.takeWhile (· != colon)

def fieldValue (line : List UInt8) : List UInt8 :=
  ((line.dropWhile (· != colon)).drop 1).dropWhile blank

/-- The spelling without any blanks behind the colon. -/
def tight (line : List UInt8) : List UInt8 :=
  if colon ∈ line then fieldName line ++ colon::fieldValue line else line

def spell (name gap line : List UInt8) : List UInt8 :=
  name ++ colon::(gap ++ fieldValue line)

theorem fieldName_field {name : List UInt8} (h : colon ∉ name) (rest : List UInt8) :
    fieldName (name ++ colon::rest) = name := by
  have hn : ∀ c ∈ name, (c != colon) = true := by
    intro c hc
    exact bne_iff_ne.mpr fun he => h (he ▸ hc)
  rw [fieldName,List.takeWhile_append_of_pos hn,List.takeWhile_cons_of_neg (by simp),
    List.append_nil]

theorem fieldValue_field {name gap : List UInt8} (h : colon ∉ name)
    (hg : ∀ c ∈ gap, blank c = true) (value : List UInt8) :
    fieldValue (name ++ colon::(gap ++ value)) = value.dropWhile blank := by
  have hn : ∀ c ∈ name, (c != colon) = true := by
    intro c hc
    exact bne_iff_ne.mpr fun he => h (he ▸ hc)
  rw [fieldValue,List.dropWhile_append_of_pos hn,List.dropWhile_cons_of_neg (by simp),
    List.drop_succ_cons,List.drop_zero,List.dropWhile_append_of_pos hg]

/-- A line with a colon is a name, a gap and a value. -/
theorem field_of_colon {line : List UInt8} (h : colon ∈ line) :
    ∃ gap, (∀ c ∈ gap, blank c = true) ∧ colon ∉ fieldName line ∧
      line = spell (fieldName line) gap line := by
  obtain ⟨name,rest,rfl,hn⟩ := List.eq_append_cons_of_mem h
  refine ⟨rest.takeWhile blank,fun c hc => List.mem_takeWhile_imp hc,?_,?_⟩
  · rwa [fieldName_field hn]
  · have hv := @fieldValue_field name [] hn (fun _ hc => absurd hc List.not_mem_nil) rest
    rw [List.nil_append] at hv
    rw [spell,fieldName_field hn,hv,List.takeWhile_append_dropWhile]

theorem respelled_spell {line name gap : List UInt8} (h : colon ∈ line)
    (hn : (fieldName line).map lower = name.map lower) (hg : ∀ c ∈ gap, blank c = true) :
    Respelled line (spell name gap line) := by
  obtain ⟨gap₀,hg₀,hcolon,hline⟩ := field_of_colon h
  conv => arg 1; rw [hline]
  exact .field hcolon hn hg₀ hg

theorem fieldName_spell {name : List UInt8} (h : colon ∉ name) (gap line : List UInt8) :
    fieldName (spell name gap line) = name := fieldName_field h _

theorem length_spell (name gap line : List UInt8) :
    (spell name gap line).length = name.length+1+gap.length+(fieldValue line).length := by
  simp only [spell,List.length_append,List.length_cons]
  omega

theorem length_tight {line : List UInt8} (h : colon ∈ line) :
    (tight line).length = (fieldName line).length+1+(fieldValue line).length := by
  rw [tight,if_pos h,List.length_append,List.length_cons]
  omega

def quiet (line : List UInt8) : List UInt8 :=
  if colon ∈ line then spell ((fieldName line).map lower) [] line else line

theorem quiet_bare {line : List UInt8} (h : colon ∉ line) : quiet line = line := if_neg h

theorem respelled_quiet (line : List UInt8) : Respelled line (quiet line) := by
  rw [quiet]
  split
  · next h =>
    exact respelled_spell h (map_lower_lower _).symm fun _ hc => absurd hc List.not_mem_nil
  · next h => exact .bare h

theorem length_quiet (line : List UInt8) : (quiet line).length = (tight line).length := by
  rw [quiet]
  split
  · next h => rw [length_spell,List.length_map,length_tight h,List.length_nil,Nat.add_zero]
  · next h => rw [tight,if_neg h]

namespace Respelled
variable {line line' : List UInt8}

theorem refl (line : List UInt8) : Respelled line line := by
  by_cases h : colon ∈ line
  · obtain ⟨gap,hg,hcolon,hline⟩ := field_of_colon h
    rw [hline]
    exact .field hcolon rfl hg hg
  · exact .bare h

/-- Fields stay fields and other lines stay as they are. -/
theorem cases_colon (h : Respelled line line') :
    (colon ∉ line ∧ line' = line) ∨ (colon ∈ line ∧ colon ∈ line' ∧
      (fieldName line).map lower = (fieldName line').map lower) := by
  cases h with
  | bare h => exact .inl ⟨h,rfl⟩
  | field h hn hg hg' =>
    have h' := mt (mem_of_lower_eq hn (by decide)).mpr h
    refine .inr ⟨by simp,by simp,?_⟩
    rw [fieldName_field h,fieldName_field h',hn]

/-- No spelling is shorter than the tight one. -/
theorem tight_le (h : Respelled line line') : (tight line).length ≤ line'.length := by
  cases h with
  | bare h => rw [tight,if_neg h]
  | @field name name' gap gap' value h hn hg hg' =>
    have hl : name.length = name'.length := by simpa using congrArg List.length hn
    have hd : (value.dropWhile blank).length ≤ value.length :=
      (List.dropWhile_suffix blank).length_le
    rw [tight,if_pos (by simp),fieldName_field h,fieldValue_field h hg]
    simp only [List.length_append,List.length_cons]
    omega

/-- Low bytes other than blanks are in all spellings or in none. -/
theorem notin {s : UInt8} (hs : s < 65) (hb : blank s = false) (h : Respelled line line')
    (hm : s ∉ line) : s ∉ line' := by
  cases h with
  | bare h => exact hm
  | field h hn hg hg' =>
    simp only [List.mem_append,List.mem_cons,not_or] at hm ⊢
    refine ⟨mt (mem_of_lower_eq hn hs).mpr hm.1,hm.2.1,fun hgap => ?_,hm.2.2.2⟩
    have := hg' s hgap
    rw [hb] at this
    cases this

end Respelled

end Shepoo.Foundation.FieldSpelling
