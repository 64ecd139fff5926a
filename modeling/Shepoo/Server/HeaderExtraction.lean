import Shepoo.Server.Handshake

/-! The extraction loops on lines of any shape. On a line shorter than 2^32 bytes the
two character loops split at the first colon; on a longer one the index wraps for ever. -/
namespace Shepoo.Server.HeaderExtraction
open Foundation BoundedLoop

def headerName (line : List UInt8) : List UInt8 := line.takeWhile (· != colon)

def headerContent (line : List UInt8) : List UInt8 := line.drop ((headerName line).length+2)

def extractStep (extracted : Extracted) (line : List UInt8) : Extracted :=
  extracted.assign (headerName line) (headerContent line)

theorem headerName_colon {name : List UInt8} (h : colon ∉ name) (rest : List UInt8) :
    headerName (name ++ colon::rest) = name := by
  have hn : ∀ c ∈ name, (c != colon) = true := by
    rintro c hc
    simp only [bne_iff_ne,ne_eq]
    rintro rfl
    exact h hc
  rw [headerName,List.takeWhile_append_of_pos hn,List.takeWhile_cons_of_neg (by simp),
    List.append_nil]

/-- The byte behind the colon is left out, whatever it is. -/
theorem headerContent_colon {name : List UInt8} (h : colon ∉ name) (rest : List UInt8) :
    headerContent (name ++ colon::rest) = rest.drop 1 := by
  rw [headerContent,headerName_colon h,List.drop_length_add_append,List.drop_succ_cons]

theorem colon_notin_text (x : HeaderName) : colon ∉ x.text := by
  cases x <;> decide

section Copy
variable {stop : UInt8 → Bool}

/-- The loop copies bytes as long as none of them stops it. -/
private theorem copy_reaches (front middle back text : List UInt8)
    (hm : ∀ c ∈ middle, stop c = false) (hl : (front ++ middle ++ back).length < 2^32) :
    Reaches (copyGuard stop (front ++ middle ++ back)) (copyBody (front ++ middle ++ back))
      ⟨UInt32.ofNat front.length,text⟩
      ⟨UInt32.ofNat (front.length+middle.length),text ++ middle⟩ := by
  induction middle generalizing front text with
  | nil =>
    simp only [List.append_nil,List.length_nil,Nat.add_zero]
    exact .refl
  | cons c middle ih =>
    have hsplit : front ++ c::middle ++ back = front ++ [c] ++ middle ++ back := by simp
    have hlen := hl
    simp only [List.length_append,List.length_cons] at hlen
    have hj : (UInt32.ofNat front.length).toNat = front.length :=
      UInt32.toNat_ofNat_of_lt' (show front.length < 2^32 by omega)
    have hget : (front ++ c::middle ++ back).getD front.length 0 = c := by
      simp [List.getD_eq_getElem?_getD]
    have hnext : UInt32.ofNat front.length + 1 = UInt32.ofNat (front ++ [c]).length := by
      rw [List.length_append,List.length_singleton,UInt32.ofNat_add]
      rfl
    have hstep : Step (copyGuard stop (front ++ c::middle ++ back))
        (copyBody (front ++ c::middle ++ back)) ⟨UInt32.ofNat front.length,text⟩
        ⟨UInt32.ofNat (front ++ [c]).length,text ++ [c]⟩ := by
      refine ⟨?_,?_⟩
      · simp only [copyGuard,hj,hget,hm c List.mem_cons_self,Bool.not_false,Bool.and_true,
          decide_eq_true_eq,List.length_append,List.length_cons]
        omega
      · simp only [copyBody,hj,hget,hnext]
    have hrest := ih (front ++ [c]) (text ++ [c]) (fun b hb => hm b (List.mem_cons_of_mem c hb))
      (by rw [← hsplit]; exact hl)
    have hend : (⟨UInt32.ofNat ((front ++ [c]).length+middle.length),text ++ [c] ++ middle⟩ :
        Copy) = ⟨UInt32.ofNat (front.length+(c::middle).length),text ++ c::middle⟩ := by
      rw [List.append_assoc,List.singleton_append,List.length_append,List.length_singleton,
        List.length_cons,Nat.add_assoc,Nat.add_comm 1]
    rw [← hsplit,hend] at hrest
    exact .head hstep hrest

/-- It ends at the end of the line or at a byte that stops it. -/
private theorem copy_done (front middle back text : List UInt8)
    (hm : ∀ c ∈ middle, stop c = false) (hb : ∀ c ∈ back.head?, stop c = true)
    (hl : (front ++ middle ++ back).length < 2^32) :
    ∃ cost, ∀ fuel, cost ≤ fuel →
      copy stop (front ++ middle ++ back) fuel ⟨UInt32.ofNat front.length,text⟩ =
        .done ⟨UInt32.ofNat (front.length+middle.length),text ++ middle⟩ := by
  refine done_of_reaches (copy_reaches front middle back text hm hl) ?_
  simp only [List.length_append] at hl
  have hj : (UInt32.ofNat (front.length+middle.length)).toNat = front.length+middle.length :=
    UInt32.toNat_ofNat_of_lt' (show front.length+middle.length < 2^32 by omega)
  rw [copyGuard]
  simp only [hj]
  cases back with
  | nil => simp
  | cons c back =>
    have hget : (front ++ middle ++ c::back).getD (front.length+middle.length) 0 = c := by
      rw [← List.length_append,List.getD_eq_getElem?_getD,List.getElem?_append_right le_rfl,
        Nat.sub_self]
      rfl
    rw [hget,hb c rfl,Bool.not_true,Bool.and_false]

end Copy

private theorem name_loop {line : List UInt8} (hl : line.length < 2^32) :
    ∃ cost, ∀ fuel, cost ≤ fuel → copy (· == colon) line fuel ⟨0,[]⟩ =
      .done ⟨UInt32.ofNat (headerName line).length,headerName line⟩ := by
  have hsplit : ([] : List UInt8) ++ headerName line ++ line.dropWhile (· != colon) = line :=
    List.takeWhile_append_dropWhile
  have hm : ∀ c ∈ headerName line, (c == colon) = false := by
    intro c hc
    simpa [bne] using List.mem_takeWhile_imp hc
  have hb : ∀ c ∈ (line.dropWhile (· != colon)).head?, (c == colon) = true := by
    intro c hc
    have hd := List.head?_dropWhile_not (· != colon) line
    rw [Option.mem_def.mp hc] at hd
    simpa [bne] using hd
  have h := copy_done [] (headerName line) (line.dropWhile (· != colon)) [] hm hb
    (by rw [hsplit]; exact hl)
  rw [hsplit,List.length_nil,Nat.zero_add] at h
  exact h

/-- From any index the second loop copies the rest of the line. -/
private theorem content_loop {line : List UInt8} (hl : line.length < 2^32) (j : UInt32) :
    ∃ cost j', ∀ fuel, cost ≤ fuel →
      copy (fun _ => false) line fuel ⟨j,[]⟩ = .done ⟨j',line.drop j.toNat⟩ := by
  by_cases hj : j.toNat ≤ line.length
  · have hsplit : line.take j.toNat ++ line.drop j.toNat ++ [] = line := by
      rw [List.append_nil,List.take_append_drop]
    have hgo : ∀ c ∈ line.drop j.toNat, (fun _ : UInt8 => false) c = false := fun _ _ => rfl
    have h := copy_done (line.take j.toNat) (line.drop j.toNat) [] [] hgo nofun
      (by rw [hsplit]; exact hl)
    rw [hsplit,List.length_take_of_le hj,UInt32.ofNat_toNat] at h
    obtain ⟨cost,hc⟩ := h
    exact ⟨cost,_,hc⟩
  · refine ⟨0,j,fun fuel _ => ?_⟩
    have hg : copyGuard (fun _ => false) line ⟨j,[]⟩ = false := by
      simp only [copyGuard,Bool.not_false,Bool.and_true,decide_eq_false_iff_not]
      omega
    rw [copy,loop_exit hg,List.drop_eq_nil_of_le (by omega)]

/-- Past 2^32 bytes every index is inside the line. -/
private theorem content_loop_long {line : List UInt8} (hl : 2^32 ≤ line.length) (fuel : Nat)
    (s : Copy) : copy (fun _ => false) line fuel s = .running := by
  refine running_of_invariant (fun _ => True) (fun s _ => ?_) fuel trivial
  have hj := s.j.toNat_lt
  refine ⟨_,⟨?_,rfl⟩,trivial⟩
  simp only [copyGuard,Bool.not_false,Bool.and_true,decide_eq_true_eq]
  omega

theorem get_assign (extracted : Extracted) (name content : List UInt8) (x : HeaderName) :
    (extracted.assign name content).get x =
      if name = x.text then content else extracted.get x := by
  have hvp : HeaderName.version.text ≠ HeaderName.protocol.text := by decide
  have hkp : HeaderName.key.text ≠ HeaderName.protocol.text := by decide
  have hkv : HeaderName.key.text ≠ HeaderName.version.text := by decide
  by_cases hp : name = HeaderName.protocol.text
  · subst hp
    cases x <;> simp [Extracted.assign,Extracted.get,hvp.symm,hkp.symm]
  · by_cases hv : name = HeaderName.version.text
    · subst hv
      cases x <;> simp [Extracted.assign,Extracted.get,hvp,hkv.symm]
    · by_cases hk : name = HeaderName.key.text
      · subst hk
        cases x <;> simp [Extracted.assign,Extracted.get,hkp,hkv]
      · cases x <;> simp [Extracted.assign,Extracted.get,hp,hv,hk]

theorem get_empty (x : HeaderName) : Extracted.empty.get x = [] := by
  cases x <;> rfl

@[ext] theorem extracted_ext {a b : Extracted} (h : ∀ x, a.get x = b.get x) : a = b := by
  have hp := h .protocol
  have hv := h .version
  have hk := h .key
  cases a
  cases b
  simp only [Extracted.get] at hp hv hk
  rw [hp,hv,hk]

/-- The content is not used where the name is none of the three. -/
private theorem assign_long {name : List UInt8} (h : 22 < name.length) (extracted : Extracted)
    (a b : List UInt8) : extracted.assign name a = extracted.assign name b := by
  apply extracted_ext
  intro x
  have hx : name ≠ x.text := by
    rintro rfl
    cases x <;> exact absurd h (by decide)
  rw [get_assign,get_assign,if_neg hx,if_neg hx]

/-- A line short enough for the index is split at its first colon. -/
theorem extractLine_short {line : List UInt8} (hl : line.length < 2^32) :
    ∃ cost, ∀ fuel, cost ≤ fuel → ∀ extracted,
      extractLine fuel extracted line = .done (extractStep extracted line) := by
  obtain ⟨cost₁,h₁⟩ := name_loop hl
  obtain ⟨cost₂,j',h₂⟩ := content_loop hl (UInt32.ofNat (headerName line).length + 2)
  have hn : (headerName line).length ≤ line.length :=
    List.IsPrefix.length_le <| List.takeWhile_prefix (· != colon)
  refine ⟨max cost₁ cost₂,fun fuel hf extracted => ?_⟩
  rw [extractLine,splitHeader,h₁ fuel (le_of_max_le_left hf),Progress.bind_done,
    h₂ fuel (le_of_max_le_right hf)]
  simp only [Progress.bind_done,Progress.pure_eq,extractStep,headerContent]
  congr 1
  by_cases hw : (headerName line).length+2 < 2^32
  · have hj : (UInt32.ofNat (headerName line).length + 2).toNat =
        (headerName line).length+2 := by
      rw [UInt32.toNat_add,UInt32.toNat_ofNat']
      change (_ % 2^32 + 2) % 2^32 = _
      omega
    rw [hj]
  · exact assign_long (by omega) extracted _ _

/-- A longer line is never finished with. -/
theorem extractLine_long {line : List UInt8} (hl : 2^32 ≤ line.length) (fuel : Nat)
    (extracted result : Extracted) : extractLine fuel extracted line ≠ .done result := by
  intro h
  obtain ⟨split,hs,_⟩ := Progress.bind_eq_done.mp h
  obtain ⟨name,_,hrest⟩ := Progress.bind_eq_done.mp hs
  obtain ⟨content,hc,_⟩ := Progress.bind_eq_done.mp hrest
  rw [content_loop_long hl] at hc
  cases hc

/-- A loop over an index range looks up a range of the list. -/
private theorem foldlM_range {α β : Type} (f : β → α → Progress β) (items : List α) {n : Nat}
    (start : Nat) (h : start+n ≤ items.length) (init : β) :
    (List.range' start n).foldlM (fun acc i => do
      let item ← Progress.ofOption items[i]?
      f acc item) init = ((items.drop start).take n).foldlM f init := by
  induction n generalizing start init with
  | zero => rfl
  | succ n ih =>
    have hs : start < items.length := by omega
    rw [List.range'_succ,List.drop_eq_getElem_cons hs,List.take_succ_cons,List.foldlM_cons,
      List.foldlM_cons,List.getElem?_eq_getElem hs]
    simp only [Progress.ofOption,Progress.bind_done]
    congr 1
    funext acc
    exact ih (start+1) (by omega) acc

/-- The lines that the extraction loop gets to, in its order: those behind the request line
up to the last but one that was counted. -/
def visitedLines (table : HeaderTable) : List (List UInt8) :=
  (table.headerLines.drop 1).take (table.headers-1)

theorem extractHeaders_eq {table : HeaderTable} (hs : table.headerLines.length = maxHeaders)
    (hi : table.headers ≤ maxHeaders) (fuel : Nat) :
    extractHeaders fuel table =
      (visitedLines table).foldlM (extractLine fuel) Extracted.empty := by
  have hm : 1+(table.headers-1) ≤ maxHeaders := by
    have : 1 ≤ maxHeaders := by decide
    omega
  exact foldlM_range (extractLine fuel) table.headerLines 1 (hm.trans_eq hs.symm) Extracted.empty

theorem extract_short {lines : List (List UInt8)} (h : ∀ line ∈ lines, line.length < 2^32) :
    ∃ cost, ∀ fuel, cost ≤ fuel → ∀ extracted,
      lines.foldlM (extractLine fuel) extracted = .done (lines.foldl extractStep extracted) := by
  induction lines with
  | nil => exact ⟨0,fun _ _ _ => rfl⟩
  | cons line lines ih =>
    obtain ⟨cost₁,h₁⟩ := extractLine_short (h line List.mem_cons_self)
    obtain ⟨cost₂,h₂⟩ := ih fun l hl => h l (List.mem_cons_of_mem line hl)
    refine ⟨max cost₁ cost₂,fun fuel hf extracted => ?_⟩
    rw [List.foldlM_cons,h₁ fuel (le_of_max_le_left hf),Progress.bind_done,
      h₂ fuel (le_of_max_le_right hf),List.foldl_cons]

theorem extract_long {lines : List (List UInt8)} {line : List UInt8} (hm : line ∈ lines)
    (hl : 2^32 ≤ line.length) (fuel : Nat) (extracted result : Extracted) :
    lines.foldlM (extractLine fuel) extracted ≠ .done result := by
  intro h
  induction lines generalizing extracted with
  | nil => cases hm
  | cons first lines ih =>
    rw [List.foldlM_cons] at h
    obtain ⟨next,hn,hrest⟩ := Progress.bind_eq_done.mp h
    rcases List.mem_cons.mp hm with rfl | hm
    · exact extractLine_long hl fuel extracted next hn
    · exact ih hm next hrest

/-- The character loops look at every position before they use it. -/
theorem extractLine_ne_fault (fuel : Nat) (extracted : Extracted) (line : List UInt8) :
    extractLine fuel extracted line ≠ .fault := by
  have hcopy (stop : UInt8 → Bool) (s : Copy) : copy stop line fuel s ≠ .fault :=
    loop_ne_fault (fun _ => Option.some_ne_none _) fuel s
  unfold extractLine splitHeader
  cases hn : copy (· == colon) line fuel ⟨0,[]⟩ with
  | fault => exact absurd hn (hcopy _ _)
  | running => simp
  | done name =>
    simp only [Progress.bind_done]
    cases hc : copy (fun _ => false) line fuel ⟨name.j+2,[]⟩ with
    | fault => exact absurd hc (hcopy _ _)
    | running => simp
    | done content => simp

theorem extract_ne_fault (fuel : Nat) (lines : List (List UInt8)) (extracted : Extracted) :
    lines.foldlM (extractLine fuel) extracted ≠ .fault := by
  induction lines generalizing extracted with
  | nil => simp
  | cons line lines ih =>
    rw [List.foldlM_cons]
    cases hl : extractLine fuel extracted line with
    | fault => exact absurd hl (extractLine_ne_fault fuel extracted line)
    | running => simp
    | done next => exact ih next

/-- Each of the three gets the content of the last line that bears its name. -/
theorem get_extract (lines : List (List UInt8)) (extracted : Extracted) (x : HeaderName) :
    (lines.foldl extractStep extracted).get x =
      (((lines.filter fun line => headerName line = x.text).getLast?).map headerContent).getD
        (extracted.get x) := by
  induction lines using List.reverseRecOn with
  | nil => rfl
  | append_singleton lines line ih =>
    rw [List.foldl_append,List.foldl_cons,List.foldl_nil,extractStep,get_assign,ih,
      List.filter_append]
    by_cases hx : headerName line = x.text
    · simp [hx]
    · simp [hx]

/-- Lines of other names leave a value alone. -/
theorem get_unnamed {lines : List (List UInt8)} {x : HeaderName}
    (h : ∀ line ∈ lines, headerName line ≠ x.text) (extracted : Extracted) :
    (lines.foldl extractStep extracted).get x = extracted.get x := by
  have hf : (lines.filter fun line => headerName line = x.text) = [] :=
    List.filter_eq_nil_iff.mpr fun line hm => by simpa using h line hm
  rw [get_extract,hf]
  rfl

end Shepoo.Server.HeaderExtraction
