import Shepoo.Server.HandshakeReading
import Shepoo.Server.HeaderExtraction

/-! The header reader on every byte stream. What it has in its table after some bytes is
a function of these bytes; a carriage return on an empty line ends it, the fifteenth one on
any other line leaves the table, and a stream without either is read for ever. -/
namespace Shepoo.Server.HandshakeScan
open Foundation ByteSource BoundedLoop HandshakeReading HeaderExtraction

abbrev Split := List (List UInt8) × List UInt8

def splitStep (s : Split) (c : UInt8) : Split :=
  if c = cr then (s.1 ++ [s.2],[])
  else if c = lf then s
  else (s.1,s.2 ++ [c])

def split (bytes : List UInt8) : Split := bytes.foldl splitStep ([],[])

/-- The table after these bytes, as far as none of them ended the header. -/
def tableAfter (bytes : List UInt8) : HeaderTable := tableOf (split bytes).1 (split bytes).2

/-- Nothing but line feeds since the last carriage return. -/
def OnEmptyLine (bytes : List UInt8) : Prop :=
  ∀ c ∈ bytes.reverse.takeWhile (· != cr), c = lf

instance (bytes : List UInt8) : Decidable (OnEmptyLine bytes) :=
  inferInstanceAs (Decidable (∀ _ ∈ _, _))

theorem split_concat (bytes : List UInt8) (c : UInt8) :
    split (bytes ++ [c]) = splitStep (split bytes) c := by
  simp [split]

theorem split_cr (bytes : List UInt8) :
    split (bytes ++ [cr]) = ((split bytes).1 ++ [(split bytes).2],[]) := by
  rw [split_concat,splitStep,if_pos rfl]

theorem split_lf (bytes : List UInt8) : split (bytes ++ [lf]) = split bytes := by
  rw [split_concat,splitStep,if_neg (by decide),if_pos rfl]

theorem split_other (bytes : List UInt8) {c : UInt8} (hcr : c ≠ cr) (hlf : c ≠ lf) :
    split (bytes ++ [c]) = ((split bytes).1,(split bytes).2 ++ [c]) := by
  rw [split_concat,splitStep,if_neg hcr,if_neg hlf]

theorem length_split (bytes : List UInt8) : (split bytes).1.length = bytes.count cr := by
  induction bytes using List.reverseRecOn with
  | nil => rfl
  | append_singleton bytes c ih =>
    rw [List.count_append]
    by_cases hcr : c = cr
    · subst hcr
      rw [split_cr,List.length_append,ih]
      rfl
    · rw [List.count_singleton,if_neg (by simpa using hcr),Nat.add_zero,← ih]
      by_cases hlf : c = lf
      · rw [hlf,split_lf]
      · rw [split_other bytes hcr hlf]

theorem split_empty_iff (bytes : List UInt8) : (split bytes).2 = [] ↔ OnEmptyLine bytes := by
  unfold OnEmptyLine
  induction bytes using List.reverseRecOn with
  | nil => simp [split]
  | append_singleton bytes c ih =>
    rw [List.reverse_concat]
    by_cases hcr : c = cr
    · subst hcr
      simp [split_cr]
    · rw [List.takeWhile_cons_of_pos (by simpa using hcr)]
      by_cases hlf : c = lf
      · subst hlf
        simp [split_lf,ih]
      · simp [split_other bytes hcr hlf,hlf]

/-- The first loop takes any byte while it stays in the table. -/
theorem prefixStep_tableAfter {bytes : List UInt8} {c : UInt8}
    (h : (bytes ++ [c]).count cr < maxHeaders) :
    (tableAfter bytes).prefixStep c = some (tableAfter (bytes ++ [c])) := by
  have hlen := length_split (bytes ++ [c])
  unfold tableAfter HeaderTable.prefixStep
  by_cases hcr : c = cr
  · subst hcr
    rw [split_cr] at hlen ⊢
    rw [List.length_append,List.length_singleton] at hlen
    rw [if_neg (fun hn => hn.1 rfl),if_pos rfl]
    exact nextLine_tableOf (by omega) _
  · by_cases hlf : c = lf
    · subst hlf
      rw [if_neg (fun hn => hn.2 rfl),if_neg hcr,split_lf]
    · rw [if_pos ⟨hcr,hlf⟩,split_other bytes hcr hlf]
      exact append_tableOf _ _ c

/-- Ten bytes are not enough to leave the table. -/
theorem readPrefix_eq (packet : Packet) : readPrefix packet = some (tableAfter packet.bytes) := by
  have hfold : ∀ bytes : List UInt8, bytes.length < maxHeaders →
      bytes.foldlM HeaderTable.prefixStep HeaderTable.empty = some (tableAfter bytes) := by
    intro bytes
    induction bytes using List.reverseRecOn with
    | nil => intro _; rfl
    | append_singleton bytes c ih =>
      intro hl
      have hcount : (bytes ++ [c]).count cr < maxHeaders := List.count_le_length.trans_lt hl
      rw [List.length_append,List.length_singleton] at hl
      rw [List.foldlM_append,ih (Nat.lt_of_succ_lt hl)]
      simp [prefixStep_tableAfter hcount]
  exact hfold packet.bytes (by rw [Packet.length_bytes]; decide)

theorem tableAfter_fits {bytes : List UInt8} (h : bytes.count cr < maxHeaders) :
    Fits (tableAfter bytes) := tableOf_fits (by rwa [length_split]) _

structure Inner (before bytes : List UInt8) : Prop where
  few : (before ++ bytes).count cr < maxHeaders
  unclosed : ∀ front back, bytes = front ++ cr::back → ¬ OnEmptyLine (before ++ front)

theorem inner_foldlM {before bytes : List UInt8} (h : Inner before bytes) :
    bytes.foldlM innerStep (tableAfter before) = some (tableAfter (before ++ bytes)) := by
  induction bytes using List.reverseRecOn with
  | nil => rw [List.append_nil]; rfl
  | append_singleton bytes c ih =>
    obtain ⟨few,unclosed⟩ := h
    rw [← List.append_assoc] at few ⊢
    have hfew : (before ++ bytes).count cr < maxHeaders := by
      rw [List.count_append] at few
      omega
    have hinner : Inner before bytes := by
      refine ⟨hfew,fun front back hs => unclosed front (back ++ [c]) ?_⟩
      rw [hs,List.append_assoc,List.cons_append]
    have hopen : ¬ (c = cr ∧ (tableAfter (before ++ bytes)).headerLines[
        (tableAfter (before ++ bytes)).headers]? = some []) := by
      rintro ⟨rfl,hempty⟩
      rw [tableAfter,tableOf_current,Option.some.injEq,split_empty_iff] at hempty
      exact unclosed bytes [] rfl hempty
    rw [List.foldlM_append,ih hinner]
    simp [innerStep,hopen,prefixStep_tableAfter few]

theorem inner_nil {before : List UInt8} (h : before.count cr < maxHeaders) : Inner before [] := by
  refine ⟨by rwa [List.append_nil],fun front back hs => ?_⟩
  have hlen := congrArg List.length hs
  simp at hlen

theorem inner_cons {before bytes : List UInt8} {c : UInt8}
    (hc : ¬ (c = cr ∧ OnEmptyLine before)) (h : Inner (before ++ [c]) bytes) :
    Inner before (c::bytes) := by
  obtain ⟨few,unclosed⟩ := h
  rw [List.append_assoc,List.singleton_append] at few
  refine ⟨few,fun front back hs => ?_⟩
  cases front with
  | nil =>
    obtain ⟨rfl,_⟩ := List.cons.inj hs
    rw [List.append_nil]
    exact fun he => hc ⟨rfl,he⟩
  | cons b front =>
    obtain ⟨rfl,hrest⟩ := List.cons.inj hs
    have hopen := unclosed front back hrest
    rwa [List.append_assoc,List.singleton_append] at hopen

inductive Scanned (before rest : List UInt8) : Prop
  | closes (bytes after : List UInt8) (hs : rest = bytes ++ cr::after)
    (inner : Inner before bytes) (empty : OnEmptyLine (before ++ bytes))
  | overruns (bytes after : List UInt8) (hs : rest = bytes ++ cr::after)
    (inner : Inner before bytes) (nonempty : ¬ OnEmptyLine (before ++ bytes))
    (full : (before ++ bytes).count cr + 1 = maxHeaders)
  | ends (inner : Inner before rest)

theorem scanned {before : List UInt8} (h : before.count cr < maxHeaders) (rest : List UInt8) :
    Scanned before rest := by
  induction rest generalizing before with
  | nil => exact .ends (inner_nil h)
  | cons c rest ih =>
    have hcount : (before ++ [c]).count cr = before.count cr + [c].count cr := List.count_append
    rw [List.count_singleton] at hcount
    by_cases hclose : c = cr ∧ OnEmptyLine before
    · obtain ⟨rfl,hempty⟩ := hclose
      exact .closes [] rest rfl (inner_nil h) (by rwa [List.append_nil])
    · by_cases hfull : (before ++ [c]).count cr < maxHeaders
      · have happ (bytes : List UInt8) : before ++ [c] ++ bytes = before ++ c::bytes := by
          rw [List.append_assoc,List.singleton_append]
        cases ih hfull with
        | closes bytes after hs inner empty =>
          exact .closes (c::bytes) after (by rw [hs,List.cons_append]) (inner_cons hclose inner)
            (happ bytes ▸ empty)
        | overruns bytes after hs inner nonempty full =>
          exact .overruns (c::bytes) after (by rw [hs,List.cons_append])
            (inner_cons hclose inner) (happ bytes ▸ nonempty) (happ bytes ▸ full)
        | ends inner => exact .ends (inner_cons hclose inner)
      · have hcr : c = cr := by
          by_contra hn
          rw [if_neg (by simpa using hn)] at hcount
          omega
        subst hcr
        rw [if_pos (by simp)] at hcount
        have hempty : ¬ OnEmptyLine before := fun he => hclose ⟨rfl,he⟩
        exact .overruns [] rest rfl (inner_nil h) (by rwa [List.append_nil])
          (by rw [List.append_nil]; omega)

section Stream
variable {σ : Type} [Source σ]

theorem readHeaders_eq (fuel : Nat) (packet : Packet) (ssl : σ) :
    readHeaders fuel packet ssl =
      loop readerGuard readerBody fuel ⟨ssl,tableAfter packet.bytes,false⟩ := by
  rw [readHeaders,readPrefix_eq]
  rfl

theorem reaches_tableAfter {before bytes rest : List UInt8} (h : Inner before bytes) {ssl : σ}
    (hp : Source.pending ssl = bytes ++ rest) :
    ∃ ssl', Reaches readerGuard readerBody (⟨ssl,tableAfter before,false⟩ : Reader σ)
      ⟨ssl',tableAfter (before ++ bytes),false⟩ ∧ Source.pending ssl' = rest := by
  have hfew := h.few
  rw [List.count_append] at hfew
  exact reaches_inner (tableAfter_fits (Nat.lt_of_le_of_lt (Nat.le_add_right _ _) hfew)) hp
    (inner_foldlM h)

/-- A carriage return with the table full is counted before the guard is tested again. -/
theorem body_overruns {before rest : List UInt8} (hempty : ¬ OnEmptyLine before)
    (hfull : before.count cr + 1 = maxHeaders) {ssl : σ} (hp : Source.pending ssl = cr::rest) :
    readerGuard (⟨ssl,tableAfter before,false⟩ : Reader σ) = true ∧
    readerBody (⟨ssl,tableAfter before,false⟩ : Reader σ) = none := by
  have hf : Fits (tableAfter before) := tableAfter_fits (by omega)
  obtain ⟨ssl',hread,_⟩ := sslRead_byte hp
  refine ⟨by simp [readerGuard,hf.inside],?_⟩
  have hline : (split before).2 ≠ [] := fun he => hempty ((split_empty_iff before).mp he)
  have hnext : (tableAfter before).nextLine = none := by
    have hin : ¬ (tableAfter before).headers+1 < maxHeaders := by
      change ¬ (split before).1.length+1 < maxHeaders
      rw [length_split]
      omega
    rw [HeaderTable.nextLine,hf.size,if_neg hin]
  have hc : ¬ (cr ≠ cr ∧ cr ≠ lf) := fun h => h.1 rfl
  rw [readerBody]
  simp only [hread,List.getD_cons_zero,if_neg hc,if_true]
  rw [tableAfter,tableOf_current]
  simp only [if_neg hline]
  rw [← tableAfter,hnext]
  rfl

/-- Behind the end of the stream zero bytes are appended for ever. -/
theorem running_at_end {table : HeaderTable} (hf : Fits table) {ssl : σ}
    (hp : Source.pending ssl = []) (fuel : Nat) :
    loop readerGuard readerBody fuel (⟨ssl,table,false⟩ : Reader σ) = .running := by
  refine running_of_invariant (fun reader : Reader σ =>
    reader.headerEnd = false ∧ Fits reader.table ∧ Source.pending reader.ssl = []) ?_ fuel
    ⟨rfl,hf,hp⟩
  rintro ⟨ssl,table,headerEnd⟩ ⟨rfl,hf,hp⟩
  obtain ⟨hnone,hrest⟩ := read_end 1 hp
  have hread : sslRead 1 [0] ssl = (fill [0] (Source.read 1 ssl).1,(Source.read 1 ssl).2) :=
    sslRead_pos Nat.one_pos [0] ssl
  have hzero : fill [0] [] = [(0 : UInt8)] := rfl
  rw [hnone,hzero] at hread
  have hlt : table.headers < table.headerLines.length := by
    rw [hf.size]
    exact hf.inside
  have happend : table.append 0 = some { table with
      headerLines := table.headerLines.set table.headers (table.headerLines[table.headers] ++ [0]) } := by
    rw [HeaderTable.append,List.getElem?_eq_getElem hlt]
  refine ⟨⟨(Source.read 1 ssl).2,_,false⟩,⟨by simp [readerGuard,hf.inside],?_⟩,rfl,
    append_fits hf happend,hrest⟩
  have hc : (0 : UInt8) ≠ cr ∧ (0 : UInt8) ≠ lf := by decide
  rw [readerBody]
  simp only [hread,List.getD_cons_zero,if_pos hc,happend]
  rfl

end Stream

end Shepoo.Server.HandshakeScan
