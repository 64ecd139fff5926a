import Shepoo.Server.Handshake

/-! The header reader against the lines it is meant to find. The table after some bytes
is computed from the lines alone; both loops keep to it wherever the stream is cut. -/
namespace Shepoo.Server.HandshakeReading
open Foundation ByteSource BoundedLoop

/-- Every complete line, the unfinished one, and the rest of the table still empty. -/
def tableOf (lines : List (List UInt8)) (unfinished : List UInt8) : HeaderTable :=
  ⟨lines ++ unfinished::List.replicate (maxHeaders-1-lines.length) [],lines.length⟩

/-- The table once the closing empty line is counted down again. -/
def closedTable (lines : List (List UInt8)) : HeaderTable :=
  ⟨(tableOf lines []).headerLines,lines.length-1⟩

def Clean (line : List UInt8) : Prop := cr ∉ line ∧ lf ∉ line

instance (line : List UInt8) : Decidable (Clean line) := inferInstanceAs (Decidable (_ ∧ _))

def terminated (lines : List (List UInt8)) : List UInt8 :=
  lines.flatMap fun line => line ++ [cr,lf]

structure Fits (table : HeaderTable) : Prop where
  size : table.headerLines.length = maxHeaders
  inside : table.headers < maxHeaders

/-- A byte that does not end the header: no line end on an empty line. -/
def innerStep (table : HeaderTable) (c : UInt8) : Option HeaderTable :=
  if c = cr ∧ table.headerLines[table.headers]? = some [] then none else table.prefixStep c

theorem tableOf_fits {lines : List (List UInt8)} (h : lines.length < maxHeaders)
    (unfinished : List UInt8) : Fits (tableOf lines unfinished) := by
  refine ⟨?_,h⟩
  simp only [tableOf,List.length_append,List.length_cons,List.length_replicate]
  omega

theorem closedTable_size {lines : List (List UInt8)} (h : lines.length < maxHeaders) :
    (closedTable lines).headerLines.length = maxHeaders := (tableOf_fits h []).size

theorem closedTable_counted {lines : List (List UInt8)} (h : lines.length < maxHeaders) :
    (closedTable lines).headers ≤ maxHeaders := (Nat.sub_le _ _).trans h.le

@[simp] theorem tableOf_current (lines : List (List UInt8)) (unfinished : List UInt8) :
    (tableOf lines unfinished).headerLines[(tableOf lines unfinished).headers]? =
      some unfinished := by
  simp [tableOf]

theorem append_tableOf (lines : List (List UInt8)) (unfinished : List UInt8) (c : UInt8) :
    (tableOf lines unfinished).append c = some (tableOf lines (unfinished ++ [c])) := by
  rw [HeaderTable.append,tableOf_current]
  simp [tableOf,List.set_append_right]

theorem nextLine_tableOf {lines : List (List UInt8)} (h : lines.length+1 < maxHeaders)
    (unfinished : List UInt8) :
    (tableOf lines unfinished).nextLine = some (tableOf (lines ++ [unfinished]) []) := by
  have hs := (tableOf_fits (Nat.lt_of_succ_lt h) unfinished).size
  have hk : maxHeaders-1-lines.length = (maxHeaders-1-(lines.length+1))+1 := by omega
  have hin : (tableOf lines unfinished).headers+1 < maxHeaders := h
  rw [HeaderTable.nextLine,hs,if_pos hin]
  simp [tableOf,hk,List.set_append_right,List.replicate_succ]

section Fits
variable {table table' : HeaderTable} {c : UInt8}

theorem append_fits (hf : Fits table) (h : table.append c = some table') : Fits table' := by
  unfold HeaderTable.append at h
  split at h
  · cases h
  · cases h
    exact ⟨(List.length_set ..).trans hf.size,hf.inside⟩

theorem nextLine_fits (hf : Fits table) (h : table.nextLine = some table') : Fits table' := by
  unfold HeaderTable.nextLine at h
  split at h
  · next hl =>
    cases h
    exact ⟨(List.length_set ..).trans hf.size,hl.trans_eq hf.size⟩
  · cases h

theorem prefixStep_fits (hf : Fits table) (h : table.prefixStep c = some table') :
    Fits table' := by
  unfold HeaderTable.prefixStep at h
  split at h
  · exact append_fits hf h
  · split at h
    · exact nextLine_fits hf h
    · cases h
      exact hf

theorem prefixStep_of_inner (h : innerStep table c = some table') :
    table.prefixStep c = some table' := by
  unfold innerStep at h
  split at h
  · cases h
  · exact h

end Fits

theorem inner_fits {bytes : List UInt8} {table table' : HeaderTable} (hf : Fits table)
    (h : bytes.foldlM innerStep table = some table') : Fits table' := by
  induction bytes generalizing table with
  | nil => cases h; exact hf
  | cons c bytes ih =>
    rw [List.foldlM_cons] at h
    obtain ⟨next,hn,hrest⟩ := Option.bind_eq_some_iff.mp h
    exact ih (prefixStep_fits hf (prefixStep_of_inner hn)) hrest

/-- A run of inner bytes is also a run of the first loop. -/
theorem prefix_of_inner {bytes : List UInt8} {table table' : HeaderTable}
    (h : bytes.foldlM innerStep table = some table') :
    bytes.foldlM HeaderTable.prefixStep table = some table' := by
  induction bytes generalizing table with
  | nil => exact h
  | cons c bytes ih =>
    rw [List.foldlM_cons] at h ⊢
    obtain ⟨next,hn,hrest⟩ := Option.bind_eq_some_iff.mp h
    exact Option.bind_eq_some_iff.mpr ⟨next,prefixStep_of_inner hn,ih hrest⟩

/-- The bytes of a line are appended to the unfinished one. -/
private theorem inner_clean {line : List UInt8} (h : Clean line) (lines : List (List UInt8))
    (unfinished : List UInt8) :
    line.foldlM innerStep (tableOf lines unfinished) =
      some (tableOf lines (unfinished ++ line)) := by
  induction line generalizing unfinished with
  | nil => simp
  | cons c line ih =>
    obtain ⟨hcr,hlf⟩ := h
    rw [List.mem_cons,not_or] at hcr hlf
    have hs : innerStep (tableOf lines unfinished) c =
        some (tableOf lines (unfinished ++ [c])) := by
      rw [innerStep,if_neg (fun hc => hcr.1 hc.1.symm),HeaderTable.prefixStep,
        if_pos ⟨Ne.symm hcr.1,Ne.symm hlf.1⟩,append_tableOf]
    rw [List.foldlM_cons,hs,Option.bind_eq_bind,Option.bind_some,ih ⟨hcr.2,hlf.2⟩,
      List.append_assoc,List.singleton_append]

/-- A line end closes a line that is not empty. -/
private theorem inner_lineEnd {lines : List (List UInt8)} (hl : lines.length+1 < maxHeaders)
    {line : List UInt8} (hne : line ≠ []) :
    [cr,lf].foldlM innerStep (tableOf lines line) = some (tableOf (lines ++ [line]) []) := by
  have hcr : innerStep (tableOf lines line) cr = some (tableOf (lines ++ [line]) []) := by
    have hc : ¬ (cr = cr ∧ some line = some []) := fun h => hne (Option.some.inj h.2)
    rw [innerStep,tableOf_current,if_neg hc]
    exact nextLine_tableOf hl line
  rw [List.foldlM_cons,hcr]
  rfl

/-- The whole of the terminated lines leaves exactly them in the table. -/
theorem inner_terminated {lines : List (List UInt8)} (hc : ∀ line ∈ lines, Clean line)
    (hne : ∀ line ∈ lines, line ≠ []) (hl : lines.length < maxHeaders) :
    (terminated lines).foldlM innerStep (tableOf [] []) = some (tableOf lines []) := by
  induction lines using List.reverseRecOn with
  | nil => rfl
  | append_singleton lines line ih =>
    have hm : line ∈ lines ++ [line] := List.mem_append_right _ List.mem_cons_self
    rw [List.length_append,List.length_singleton] at hl
    have hs : terminated (lines ++ [line]) = terminated lines ++ (line ++ [cr,lf]) := by
      simp [terminated]
    rw [hs,List.foldlM_append,ih (fun l h => hc l (List.mem_append_left _ h))
      (fun l h => hne l (List.mem_append_left _ h)) (Nat.lt_of_succ_lt hl)]
    change (line ++ [cr,lf]).foldlM innerStep (tableOf lines []) = _
    rw [List.foldlM_append,inner_clean (hc line hm)]
    exact inner_lineEnd hl (hne line hm)

section Stream
variable {σ : Type} [Source σ]

/-- One byte off the stream. -/
theorem sslRead_byte {ssl : σ} {c : UInt8} {rest : List UInt8}
    (h : Source.pending ssl = c::rest) :
    ∃ ssl', sslRead 1 [0] ssl = ([c],ssl') ∧ Source.pending ssl' = rest := by
  obtain ⟨hb,hr⟩ := read_one h
  have hread : sslRead 1 [0] ssl = (fill [0] (Source.read 1 ssl).1,(Source.read 1 ssl).2) :=
    sslRead_pos Nat.one_pos [0] ssl
  rw [hb] at hread
  exact ⟨_,hread,hr⟩

/-- An inner byte is one iteration of the second loop. -/
theorem step_inner {ssl : σ} {c : UInt8} {rest : List UInt8} {table table' : HeaderTable}
    (hf : Fits table) (hp : Source.pending ssl = c::rest)
    (h : innerStep table c = some table') :
    ∃ ssl', Step readerGuard readerBody (⟨ssl,table,false⟩ : Reader σ) ⟨ssl',table',false⟩ ∧
      Source.pending ssl' = rest := by
  obtain ⟨ssl',hread,hrest⟩ := sslRead_byte hp
  refine ⟨ssl',⟨by simp [readerGuard,hf.inside],?_⟩,hrest⟩
  rw [readerBody]
  simp only [hread,List.getD_cons_zero]
  unfold innerStep HeaderTable.prefixStep at h
  split at h
  · cases h
  · next hb =>
    split at h
    · next hc => rw [if_pos hc,h]; rfl
    · next hc =>
      rw [if_neg hc]
      split at h
      · next hcr =>
        have hlt : table.headers < table.headerLines.length := by
          rw [hf.size]; exact hf.inside
        have hline : table.headerLines[table.headers] ≠ [] := fun he =>
          hb ⟨hcr,by rw [List.getElem?_eq_getElem hlt,he]⟩
        rw [if_pos hcr,List.getElem?_eq_getElem hlt]
        simp only [if_neg hline,h,Option.map_some]
      · next hcr =>
        cases h
        rw [if_neg hcr]

/-- Inner bytes take the second loop through the same tables as the first one. -/
theorem reaches_inner {bytes rest : List UInt8} {ssl : σ} {table table' : HeaderTable}
    (hf : Fits table) (hp : Source.pending ssl = bytes ++ rest)
    (h : bytes.foldlM innerStep table = some table') :
    ∃ ssl', Reaches readerGuard readerBody (⟨ssl,table,false⟩ : Reader σ)
      ⟨ssl',table',false⟩ ∧ Source.pending ssl' = rest := by
  induction bytes generalizing ssl table with
  | nil =>
    cases h
    exact ⟨ssl,.refl,hp⟩
  | cons c bytes ih =>
    rw [List.foldlM_cons] at h
    obtain ⟨next,hn,hrest⟩ := Option.bind_eq_some_iff.mp h
    obtain ⟨ssl₁,hstep,hp₁⟩ := step_inner hf hp hn
    obtain ⟨ssl₂,hreach,hp₂⟩ := ih (prefixStep_fits hf (prefixStep_of_inner hn)) hp₁ hrest
    exact ⟨ssl₂,.head hstep hreach,hp₂⟩

/-- The carriage return of the closing empty line ends the loop and uncounts that line. -/
theorem step_close {ssl : σ} {rest : List UInt8} {lines : List (List UInt8)}
    (hl : lines.length < maxHeaders) (hp : Source.pending ssl = cr::rest) :
    ∃ ssl', Step readerGuard readerBody (⟨ssl,tableOf lines [],false⟩ : Reader σ)
      ⟨ssl',closedTable lines,true⟩ ∧
      Source.pending ssl' = rest := by
  obtain ⟨ssl',hread,hrest⟩ := sslRead_byte hp
  have hg : readerGuard (⟨ssl,tableOf lines [],false⟩ : Reader σ) = true := by
    simp [readerGuard,(tableOf_fits hl []).inside]
  refine ⟨ssl',⟨hg,?_⟩,hrest⟩
  have hc : ¬ (cr ≠ cr ∧ cr ≠ lf) := fun h => h.1 rfl
  rw [readerBody]
  simp only [hread,List.getD_cons_zero,if_neg hc,if_true,tableOf_current]
  rfl

/-- Both loops together split a request into its lines, wherever the header that was read
first ends, and consume it up to the carriage return of the closing empty line. -/
theorem readHeaders_lines {lines : List (List UInt8)} (hc : ∀ line ∈ lines, Clean line)
    (hne : ∀ line ∈ lines, line ≠ []) (hl : lines.length < maxHeaders) {packet : Packet}
    {ssl : σ} {rest : List UInt8} (hten : 10 ≤ (terminated lines).length)
    (hp : packet.bytes ++ Source.pending ssl = terminated lines ++ cr::rest) :
    ∃ ssl' cost, Source.pending ssl' = rest ∧ ∀ fuel, cost ≤ fuel →
      readHeaders fuel packet ssl =
        .done ⟨ssl',closedTable lines,true⟩ := by
  have hlen := Packet.length_bytes packet
  have hsplit := List.take_append_drop 10 (terminated lines)
  have htake : packet.bytes = (terminated lines).take 10 := by
    have := congrArg (List.take 10) hp
    rwa [List.take_left' hlen,List.take_append_of_le_length hten] at this
  have hdrop : Source.pending ssl = (terminated lines).drop 10 ++ cr::rest := by
    have := congrArg (List.drop 10) hp
    rwa [List.drop_left' hlen,List.drop_append_of_le_length hten] at this
  have hall := inner_terminated hc hne hl
  rw [← hsplit,List.foldlM_append,← htake] at hall
  obtain ⟨table,hpre,hpost⟩ := Option.bind_eq_some_iff.mp hall
  have hf : Fits table := inner_fits (tableOf_fits (by decide) []) hpre
  obtain ⟨ssl₁,hreach,hp₁⟩ := reaches_inner hf hdrop hpost
  obtain ⟨ssl₂,hclose,hp₂⟩ := step_close hl hp₁
  obtain ⟨cost,hcost⟩ := done_of_reaches (hreach.tail hclose) rfl
  refine ⟨ssl₂,cost,hp₂,fun fuel hfuel => ?_⟩
  have hfirst : readPrefix packet = some table := prefix_of_inner hpre
  rw [readHeaders,hfirst]
  exact hcost fuel hfuel

end Stream

end Shepoo.Server.HandshakeReading
