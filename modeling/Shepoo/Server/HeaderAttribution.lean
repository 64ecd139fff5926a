import Shepoo.Server.HeaderExtraction

/-! Which line of the table each of the three values comes from, for tables of any
lines. Where the loop comes to its end the last line of a name decides; a line of 2^32
bytes or more keeps it from ending. -/
namespace Shepoo.Server.HeaderAttribution
open Foundation BoundedLoop HeaderExtraction

/-- The array of lines at its full size, and a count that may be all of them. -/
structure CountedTable extends HeaderTable where
  size : headerLines.length = maxHeaders
  counted : headers ≤ maxHeaders

def Visited (table : HeaderTable) (i : Nat) (line : List UInt8) : Prop :=
  1 ≤ i ∧ i < table.headers ∧ table.headerLines[i]? = some line

def Extracts (table : HeaderTable) (extracted : Extracted) : Prop :=
  ∃ cost, ∀ fuel, cost ≤ fuel → extractHeaders fuel table = .done extracted

structure Attributed (table : HeaderTable) (extracted : Extracted) : Prop where
  last : ∀ (x : HeaderName) i value, Visited table i (x.text ++ ascii ": " ++ value) →
    (∀ k line, i < k → Visited table k line → headerName line ≠ x.text) →
      extracted.get x = value
  absent : ∀ x : HeaderName, (∀ i line, Visited table i line → headerName line ≠ x.text) →
    extracted.get x = []

def Other (line : List UInt8) : Prop := ∀ x : HeaderName, headerName line ≠ x.text

def replaceLine (table : HeaderTable) (i : Nat) (line : List UInt8) : HeaderTable :=
  { table with headerLines := table.headerLines.set i line }

/-- The loop makes the same of the table with and without the replacement. -/
def Inert (table : HeaderTable) (i : Nat) (line : List UInt8) : Prop :=
  ∃ extracted, Extracts table extracted ∧ Extracts (replaceLine table i line) extracted

/-- No visited line outgrows the index. -/
def Indexable (table : HeaderTable) : Prop :=
  ∀ i line, Visited table i line → line.length < 2^32

theorem visited_iff {table : HeaderTable} {i : Nat} {line : List UInt8} :
    Visited table i line ↔ ∃ k, i = k+1 ∧ (visitedLines table)[k]? = some line := by
  constructor
  · rintro ⟨h1,hi,hl⟩
    refine ⟨i-1,by omega,?_⟩
    rw [visitedLines,List.getElem?_take_of_lt (by omega),List.getElem?_drop,
      Nat.add_sub_cancel' h1,hl]
  · rintro ⟨k,rfl,hk⟩
    have hlt : k < table.headers-1 := by
      have := (List.getElem?_eq_some_iff.mp hk).1
      rw [visitedLines,List.length_take] at this
      omega
    rw [visitedLines,List.getElem?_take_of_lt hlt,List.getElem?_drop,Nat.add_comm] at hk
    exact ⟨by omega,by omega,hk⟩

theorem visited_iff_mem {table : HeaderTable} {p : List UInt8 → Prop} :
    (∀ i line, Visited table i line → p line) ↔ ∀ line ∈ visitedLines table, p line := by
  simp only [visited_iff,List.mem_iff_getElem?]
  constructor
  · rintro h line ⟨k,hk⟩
    exact h (k+1) line ⟨k,rfl,hk⟩
  · rintro h i line ⟨k,_,hk⟩
    exact h line ⟨k,hk⟩

theorem visitedLines_replaceLine (table : HeaderTable) (k : Nat) (line : List UInt8) :
    visitedLines (replaceLine table (k+1) line) = (visitedLines table).set k line := by
  rw [visitedLines,visitedLines,replaceLine,List.drop_set,if_neg (by omega),Nat.add_sub_cancel,
    List.take_set]

/-- A loop that ends, on whatever budget, has indexed every line it visits. -/
theorem short_of_done {table : HeaderTable} (hs : table.headerLines.length = maxHeaders)
    (hc : table.headers ≤ maxHeaders) {fuel : Nat} {extracted : Extracted}
    (h : extractHeaders fuel table = .done extracted) :
    ∀ line ∈ visitedLines table, line.length < 2^32 := by
  intro line hm
  by_contra hl
  rw [extractHeaders_eq hs hc] at h
  exact extract_long hm (Nat.not_lt.mp hl) fuel _ _ h

/-- The loop ends exactly on lines it can index, and then it has folded over them. -/
theorem extracts_iff {table : HeaderTable} (hs : table.headerLines.length = maxHeaders)
    (hc : table.headers ≤ maxHeaders) {extracted : Extracted} :
    Extracts table extracted ↔ (∀ line ∈ visitedLines table, line.length < 2^32) ∧
      extracted = (visitedLines table).foldl extractStep Extracted.empty := by
  constructor
  · rintro ⟨cost,h⟩
    have hshort := short_of_done hs hc (h cost le_rfl)
    obtain ⟨cost',h'⟩ := extract_short hshort
    have he := h (max cost cost') (le_max_left _ _)
    rw [extractHeaders_eq hs hc,h' _ (le_max_right _ _),Progress.done.injEq] at he
    exact ⟨hshort,he.symm⟩
  · rintro ⟨hshort,rfl⟩
    obtain ⟨cost,h⟩ := extract_short hshort
    exact ⟨cost,fun fuel hf => by rw [extractHeaders_eq hs hc,h fuel hf]⟩

theorem extractStep_other {line : List UInt8} (h : Other line) (extracted : Extracted) :
    extractStep extracted line = extracted := by
  apply extracted_ext
  intro x
  rw [extractStep,get_assign,if_neg (h x)]

private theorem split_at {lines : List (List UInt8)} {k : Nat} {line : List UInt8}
    (h : lines[k]? = some line) : lines = lines.take k ++ line::lines.drop (k+1) := by
  obtain ⟨hk,rfl⟩ := List.getElem?_eq_some_iff.mp h
  rw [← List.drop_eq_getElem_cons hk,List.take_append_drop]

theorem attributed_fold (table : HeaderTable) :
    Attributed table ((visitedLines table).foldl extractStep Extracted.empty) := by
  constructor
  · intro x i value hv hlast
    obtain ⟨k,rfl,hk⟩ := visited_iff.mp hv
    have hafter : ∀ line ∈ (visitedLines table).drop (k+1), headerName line ≠ x.text := by
      intro line hm
      obtain ⟨m,hm⟩ := List.mem_iff_getElem?.mp hm
      rw [List.getElem?_drop] at hm
      exact hlast (k+1+m+1) line (by omega) (visited_iff.mpr ⟨k+1+m,rfl,hm⟩)
    have hline : x.text ++ ascii ": " ++ value = x.text ++ colon::32::value := by
      rw [List.append_assoc]
      rfl
    have hx := colon_notin_text x
    rw [split_at hk,List.foldl_append,List.foldl_cons,get_unnamed hafter,hline,extractStep,
      get_assign,headerName_colon hx,if_pos rfl,headerContent_colon hx,List.drop_succ_cons,
      List.drop_zero]
  · intro x hx
    rw [get_unnamed (visited_iff_mem.mp hx),get_empty]

private theorem fold_replaced {lines : List (List UInt8)} {k : Nat} {line line' : List UInt8}
    (hk : lines[k]? = some line) (h : Other line) (h' : Other line') :
    (lines.set k line').foldl extractStep Extracted.empty =
      lines.foldl extractStep Extracted.empty := by
  have hlt := (List.getElem?_eq_some_iff.mp hk).1
  conv_rhs => rw [split_at hk]
  rw [List.set_eq_take_append_cons_drop,if_pos hlt]
  simp only [List.foldl_append,List.foldl_cons,extractStep_other h,extractStep_other h']

private theorem short_replaced {lines : List (List UInt8)} {k : Nat} {line line' : List UInt8}
    (hk : lines[k]? = some line) (h : ∀ l ∈ lines, l.length < 2^32) :
    (∀ l ∈ lines.set k line', l.length < 2^32) ↔ line'.length < 2^32 := by
  have hlt := (List.getElem?_eq_some_iff.mp hk).1
  constructor
  · intro hs
    exact hs line' (List.mem_set hlt line')
  · intro hs l hm
    rcases List.mem_or_eq_of_mem_set hm with hm | rfl
    · exact h l hm
    · exact hs

private theorem attributes_iff (table : CountedTable) :
    (∃ extracted, Extracts table.toHeaderTable extracted ∧
      Attributed table.toHeaderTable extracted) ↔ Indexable table.toHeaderTable := by
  rw [Indexable,visited_iff_mem]
  constructor
  · rintro ⟨extracted,h,_⟩
    exact ((extracts_iff table.size table.counted).mp h).1
  · intro h
    exact ⟨_,(extracts_iff table.size table.counted).mpr ⟨h,rfl⟩,attributed_fold _⟩

private theorem inert_iff (table : CountedTable) {i : Nat} {line line' : List UInt8}
    (hv : Visited table.toHeaderTable i line) (h : Other line) (h' : Other line') :
    Inert table.toHeaderTable i line' ↔
      Indexable table.toHeaderTable ∧ line'.length < 2^32 := by
  obtain ⟨k,rfl,hk⟩ := visited_iff.mp hv
  have hsize : (replaceLine table.toHeaderTable (k+1) line').headerLines.length = maxHeaders :=
    (List.length_set ..).trans table.size
  rw [Indexable,visited_iff_mem]
  constructor
  · rintro ⟨extracted,he,he'⟩
    have hshort := ((extracts_iff table.size table.counted).mp he).1
    have hshort' := ((extracts_iff hsize table.counted).mp he').1
    rw [visitedLines_replaceLine] at hshort'
    exact ⟨hshort,(short_replaced hk hshort).mp hshort'⟩
  · rintro ⟨hshort,hl⟩
    refine ⟨_,(extracts_iff table.size table.counted).mpr ⟨hshort,rfl⟩,
      (extracts_iff hsize table.counted).mpr ?_⟩
    rw [visitedLines_replaceLine]
    exact ⟨(short_replaced hk hshort).mpr hl,(fold_replaced hk h h').symm⟩

/-- The loop gives each header its own last value exactly where it can index every line it
visits, and changing a line of another name makes no difference exactly where it can index
the new line as well. Values it ends with are never wrong. -/
theorem extraction_attributes_iff (table : CountedTable) :
    ((∃ extracted, Extracts table.toHeaderTable extracted ∧
      Attributed table.toHeaderTable extracted) ↔ Indexable table.toHeaderTable) ∧
    (∀ extracted, Extracts table.toHeaderTable extracted →
      Attributed table.toHeaderTable extracted) ∧
    ∀ i line line', Visited table.toHeaderTable i line → Other line → Other line' →
      (Inert table.toHeaderTable i line' ↔
        Indexable table.toHeaderTable ∧ line'.length < 2^32) := by
  refine ⟨attributes_iff table,fun extracted h => ?_,fun i line line' => inert_iff table⟩
  obtain ⟨_,rfl⟩ := (extracts_iff table.size table.counted).mp h
  exact attributed_fold _

def cookieTable : CountedTable where
  headerLines := ascii "GET / HTTP/1.1"::ascii "Sec-WebSocket-Version: 13"::
    (ascii "Cookie: " ++ List.replicate (2^32) 97)::List.replicate 12 []
  headers := 3
  size := rfl
  counted := by decide

/-- The extraction never gets past the cookie, so the version is not found either. -/
theorem cookieTable_endless :
    ¬ ∃ extracted, Extracts cookieTable.toHeaderTable extracted ∧
      Attributed cookieTable.toHeaderTable extracted := by
  rw [attributes_iff]
  intro h
  have hl := h 2 (ascii "Cookie: " ++ List.replicate (2^32) 97) ⟨by decide,by decide,rfl⟩
  rw [List.length_append,List.length_replicate] at hl
  omega

end Shepoo.Server.HeaderAttribution
